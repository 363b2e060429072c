/-
  The program: runs scripts, lists their tokens and trees, and answers lines of input.
-/
import Scriptling.CommandLine
import Std.Time.DateTime.Timestamp

namespace Scriptling

/-- Why the system did not open or read a file; it tells its codes with either sign. -/
def FileFault.ofError : IO.Error → FileFault
  | .permissionDenied .. => .denied
  | .inappropriateType _ code _ => if code = 20 || code = -20 then .notDirectory else .directory
  | .invalidArgument _ code _ => if code = 36 || code = -36 then .nameTooLong else .absent
  | _ => .absent

/-- The outcome of an action on files. -/
def attempt {α : Type} (act : IO α) : IO (Except FileFault α) := do
  try
    return .ok (← act)
  catch e => return .error (.ofError e)

/-- Reads a line, with its line break. -/
partial def readLine (input : IO.FS.Stream) (line : ByteArray) : IO ByteArray := do
  let byte ← input.read 1
  let line := line ++ byte
  if byte.isEmpty || byte.data.contains 10 then return line else readLine input line

/-- Writes a report and gives its exit code. -/
def deliver (r : Report) : IO UInt32 := do
  IO.print r.stdout
  IO.eprint r.stderr
  return UInt32.ofNat r.exit

/-- Answers lines of input. -/
partial def converse (m : Machine) : IO UInt32 := do
  let stdout ← IO.getStdout
  stdout.putStr Repl.prompt
  stdout.flush
  let line ← readLine (← IO.getStdin) .empty
  if line.isEmpty then
    stdout.putStr "\n"
    return 0
  match Repl.turn m line with
  | .next printed m =>
    stdout.putStr printed
    converse m
  | .quit => return 0
  | .failed failure => deliver (failure.report "")

end Scriptling

open Scriptling in
/-- The command line. -/
def main (args : List String) : IO UInt32 := do
  match Invocation.read args with
  | none =>
    IO.eprintln "usage: scriptling [--log] [FILE | run FILE | tokenize FILE [--json] | parse FILE]"
    return 2
  | some invocation =>
    if invocation.log then
      if let .error fault ← attempt (IO.FS.writeFile logPath invocation.opening) then
        return ← deliver ((logFailure fault).report "")
    let now ← Std.Time.Timestamp.now
    let m := scriptMachine now.toMillisecondsSinceUnixEpoch.toInt.toNat
    let reportOf (command : Command) (path : String) : IO UInt32 := do
      deliver (command.report m path (← attempt (IO.FS.readBinFile path)))
    match invocation.task with
    | .repl => converse m
    | .version => deliver versionReport
    | .script path => reportOf .run path
    | .file command path => reportOf command path
