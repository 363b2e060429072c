/-
  The command line — what the program answers.

  * `Command.report`: the answer of a command that reads a file: what it prints, what it
    reports as a failure, and its exit code;
  * `Repl.turn`: the answer to one line of input, and `Repl.transcript` to all of them.
-/
import Scriptling.Invocation
import Scriptling.Session
import Scriptling.Syntax.Listing
import Scriptling.Text.Blank
import Scriptling.Text.Utf8
import Scriptling.Token.Json

namespace Scriptling

/-! ## Reports -/

/-- What the program leaves behind. -/
structure Report where
  exit : Nat
  stdout : String
  stderr : String
deriving DecidableEq

/-- A failure that has nothing to do with the program text. -/
structure Failure where
  context : String
  cause : String

/-- A failure, after what was printed before it. -/
def Failure.report (f : Failure) (printed : String) : Report :=
  ⟨1, printed, "Error: " ++ f.context ++ "\n\nCaused by:\n    " ++ f.cause ++ "\n"⟩

/-- Why a path does not lead to a file. -/
inductive FileFault where
  | absent
  | denied
  | notDirectory
  | directory
  | nameTooLong
deriving DecidableEq

namespace FileFault

/-- The cause in words. -/
def cause : FileFault → String
  | absent => "No such file or directory (os error 2)"
  | denied => "Permission denied (os error 13)"
  | notDirectory => "Not a directory (os error 20)"
  | directory => "Is a directory (os error 21)"
  | nameTooLong => "File name too long (os error 36)"

/-- The failure to read the file at a path.  A directory can be opened, but not read. -/
def failure (path : String) (fault : FileFault) : Failure :=
  ⟨(if fault = directory then "Failed to read file " else "Failed to open file ") ++ quoted path,
    fault.cause⟩

end FileFault

/-- The file of the log. -/
def logPath : String := "app.log"

/-- The failure to open the log. -/
def logFailure (fault : FileFault) : Failure :=
  ⟨"Failed to create " ++ logPath, fault.cause⟩

/-- The program text in a file. -/
def sourceOf (path : String) (contents : Except FileFault ByteArray) : Except Failure String :=
  match contents with
  | .error fault => .error (fault.failure path)
  | .ok bytes =>
    match Utf8.decode bytes with
    | .ok text => .ok text
    | .error e => .error ⟨quoted path ++ " is not valid UTF-8", e.message⟩

/-- Lines, each with its end. -/
def lines (texts : List String) : String := String.join (texts.map (· ++ "\n"))

/-- The exit code for an error in a program. -/
def Error.exitCode (e : Error) : Nat := if e.isStatic then 65 else 70

/-- Lists the tokens of a text, and its fault. -/
def tokenizeReport (json : Bool) (source : String) : Report :=
  let s := scan source
  let listed := if json then [tokensJson s.tokens] else s.tokens.map Token.row
  match s.error with
  | none => ⟨0, lines listed, ""⟩
  | some e => ⟨e.exitCode, lines (listed ++ [e.message]), ""⟩

/-- Lists the statements of a text, and its errors. -/
def parseReport (source : String) : Report :=
  match tokens source with
  | .error e => ⟨e.exitCode, lines [e.message], ""⟩
  | .ok ts =>
    let (program, errors) := parseRecovering ts
    ⟨if errors.isEmpty then 0 else 65,
      lines (program.map Stmt.listing ++ errors.map Error.message), ""⟩

/-- A step of a session as text: what it printed, and its error. -/
def showStep (result : Except Error Unit) (printed : ByteArray) : String :=
  let text := Utf8.decodeLossy printed
  match result with
  | .ok () => text
  | .error e => text ++ lines [e.message]

/-- The machine on which scripts run, started at the given time. -/
def scriptMachine (time : Nat) : Machine := { Machine.start standardLibrary {} with time := time }

/-- Runs a text on a machine. -/
def runReport (m : Machine) (source : String) : Report :=
  match Session.perform (Session.run source) m with
  | none => ⟨70, "", ""⟩
  | some ((result, printed), _) =>
    let exit := match result with
      | .ok () => 0
      | .error e => e.exitCode
    ⟨exit, showStep result printed, ""⟩

/-- The answer of a command to a file; programs run on the given machine. -/
def Command.report (command : Command) (m : Machine) (path : String)
    (contents : Except FileFault ByteArray) : Report :=
  match sourceOf path contents with
  | .error failure => failure.report ""
  | .ok source =>
    match command with
    | run => runReport m source
    | tokenize json => tokenizeReport json source
    | parse => parseReport source

/-- What the program says about its version. -/
def versionReport : Report := ⟨0, lines [programName ++ " 0.1.0"], ""⟩

/-! ## Lines of input -/

namespace Repl

/-- Shown before each line. -/
def prompt : String := "> "

/-- The answer to a line. -/
inductive Turn where
  /-- Something was printed, and the machine waits for the next line. -/
  | next (printed : String) (m : Machine)
  /-- The line asked for the end. -/
  | quit
  /-- The line is no text. -/
  | failed (failure : Failure)

/-- Runs a line. -/
def turn (m : Machine) (line : ByteArray) : Turn :=
  match Utf8.decode line with
  | .error _ => .failed ⟨"Failed to read from stdin", "stream did not contain valid UTF-8"⟩
  | .ok text =>
    match trim text with
    | "exit" => .quit
    | "" => .next "" m
    | source =>
      match Session.perform (Session.run source) m with
      | none => .next "" m
      | some ((result, printed), m) => .next (showStep result printed) m

/-- Cuts input into lines, each with its line break. -/
def splitLines (bytes : List UInt8) : List (List UInt8) :=
  match bytes with
  | [] => []
  | b :: bs =>
    if b = 10 then [b] :: splitLines bs
    else match splitLines bs with
      | [] => [[b]]
      | line :: rest => (b :: line) :: rest

/-- The answers to lines of input, after what was printed before. -/
def answers (printed : String) (m : Machine) : List ByteArray → Report
  | [] => ⟨0, printed ++ prompt ++ "\n", ""⟩
  | line :: rest =>
    match turn m line with
    | .next text m => answers (printed ++ prompt ++ text) m rest
    | .quit => ⟨0, printed ++ prompt, ""⟩
    | .failed failure => failure.report (printed ++ prompt)

/-- The answers to all of the input. -/
def transcript (m : Machine) (input : ByteArray) : Report :=
  answers "" m ((splitLines input.toList).map fun line => ⟨line.toArray⟩)

end Repl

end Scriptling
