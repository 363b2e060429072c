/-
  Invocations — what the arguments of the program ask for.

  * `Arguments.take`: what one more argument adds, if it is allowed in its place;
  * `Invocation.read`: the task that all arguments amount to, if they have a meaning;
  * `Invocation.opening`: what the log says before the task is taken up.
-/
import Scriptling.Text.Quoted

namespace Scriptling

/-! ## Tasks -/

/-- What to do with a file. -/
inductive Command where
  | run
  | tokenize (json : Bool)
  | parse
deriving DecidableEq

/-- What the program is asked to do. -/
inductive Task where
  | file (command : Command) (path : String)
  /-- Run the script at a path, without a command being named. -/
  | script (path : String)
  /-- Read and run lines of input. -/
  | repl
  | version
deriving DecidableEq

/-- The path of the file that a task reads. -/
def Task.path? : Task → Option String
  | file _ path | script path => some path
  | repl | version => none

/-- A task, and whether a log is wanted. -/
structure Invocation where
  task : Task
  log : Bool
deriving DecidableEq

/-! ## Arguments -/

/-- The arguments read so far. -/
structure Arguments where
  command : Option Command := none
  path : Option String := none
  log : Bool := false
  /-- Options are over: everything else is a path. -/
  ended : Bool := false

namespace Arguments

/-- The command that a word names. -/
def command? : String → Option Command
  | "run" => some .run
  | "tokenize" => some (.tokenize false)
  | "parse" => some .parse
  | _ => none

/-- The argument is written as an option. -/
def isOption (arg : String) : Bool := arg.startsWith "-" && arg != "-"

/-- Takes a path; there is at most one, and it is not empty. -/
def takePath (a : Arguments) (arg : String) : Option Arguments :=
  if arg.isEmpty || a.path.isSome then none else some { a with path := some arg }

/-- Takes one more argument.  A command stands in front of everything else; in another
    place its name is a path. -/
def take (a : Arguments) (arg : String) : Option Arguments :=
  if a.ended then a.takePath arg
  else if arg = "--" then some { a with ended := true }
  else if arg = "--log" then if a.log then none else some { a with log := true }
  else if arg = "--json" then
    if a.command = some (.tokenize false) then some { a with command := some (.tokenize true) }
    else none
  else if isOption arg then none
  else if a.command.isSome || a.path.isSome || a.log then a.takePath arg
  else match command? arg with
    | some c => some { a with command := some c }
    | none => a.takePath arg

/-- The argument asks for the version; only options of the program itself do. -/
def asksVersion (a : Arguments) (arg : String) : Bool :=
  !a.ended && a.command.isNone && (arg == "--version" || arg.startsWith "-V")

/-- The task that the arguments amount to. -/
def task? (a : Arguments) : Option Task :=
  match a.command, a.path with
  | none, none => some .repl
  | none, some path => some (.script path)
  | some command, some path => some (.file command path)
  | some _, none => none

/-- Reads the arguments that are left; what follows a question for the version is not
    looked at. -/
def read (a : Arguments) : List String → Option Invocation
  | [] => a.task?.map fun task => ⟨task, a.log⟩
  | arg :: args =>
    if a.asksVersion arg then some ⟨.version, false⟩
    else (a.take arg).bind fun a => a.read args

end Arguments

/-- Reads the arguments of the program. -/
def Invocation.read (args : List String) : Option Invocation := Arguments.read {} args

/-! ## The log -/

/-- The name under which the program speaks of itself. -/
def programName : String := "rox"

/-- A line of the log, with the place in the program that it comes from. -/
def logLine (place : Nat) (text : String) : String :=
  "[" ++ programName ++ ":" ++ toString place ++ "] - " ++ text ++ "\n"

/-- A record as the log shows it: its name, and its fields in braces. -/
def logRecord (name : String) (fields : List (String × String)) : String :=
  name ++ " \x7b " ++ String.intercalate ", " (fields.map fun f => f.1 ++ ": " ++ f.2) ++ " \x7d"

/-- An optional thing as the log shows it. -/
def logOption : Option String → String
  | none => "None"
  | some text => "Some(" ++ text ++ ")"

/-- A truth value as the log shows it. -/
def logBool (b : Bool) : String := if b then "true" else "false"

/-- A command with its path, as the log shows it. -/
def Command.logged (command : Command) (path : String) : String :=
  let file := ("filename", quoted path)
  match command with
  | run => logRecord "Run" [file]
  | tokenize json => logRecord "Tokenize" [file, ("json", logBool json)]
  | parse => logRecord "Parse" [file]

namespace Invocation

/-- An invocation as the log shows it. -/
def logged (i : Invocation) : String :=
  let (command, file) := match i.task with
    | .file command path => (some (command.logged path), none)
    | .script path => (none, some (quoted path))
    | .repl | .version => (none, none)
  logRecord "Cli"
    [("command", logOption command), ("file", logOption file), ("log", logBool i.log)]

/-- What the log says before the task is taken up: that it was opened, what the arguments
    are, and which file will be read. -/
def opening (i : Invocation) : String :=
  logLine 107 "Logger initialized, writing to app.log"
    ++ logLine 263 ("CLI arguments: " ++ i.logged)
    ++ match i.task.path? with
      | some path => logLine 65 ("Reading file: " ++ quoted path)
      | none => ""

end Invocation

end Scriptling
