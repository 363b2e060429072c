/-
  Directories — files by path, without a file system.

  A path is followed step by step from the directory, or from the root of the system that
  the directory is in.

  * `Directory.follow`: where one step of a path leads;
  * `Directory.read`: what reading the file at a path gives;
  * `Directory.report`: the answer to an invocation in the directory.
-/
import Scriptling.CommandLine

namespace Scriptling

/-- A directory of a system. -/
structure Directory where
  /-- The files of the directory, with their paths in it. -/
  files : List (String × ByteArray)
  /-- What the standard input of the system holds. -/
  input : ByteArray := .empty

/-- Where the steps of a path lead. -/
inductive Place where
  | file (contents : ByteArray)
  /-- The directory itself, or one inside it. -/
  | inside (steps : List String)
  /-- A directory of the system, by its path from the root. -/
  | system (steps : List String)
  /-- A directory around the one given, of which nothing else is known. -/
  | around

/-- The greatest number of bytes in a step of a path. -/
def maxStep : Nat := 255

/-- The greatest number of bytes in a path. -/
def maxPath : Nat := 4095

/-- Directories that every system has, by their paths from the root. -/
def systemDirectories : List (List String) :=
  [["bin"], ["boot"], ["dev"], ["dev", "fd"], ["etc"], ["home"], ["lib"], ["media"], ["mnt"],
    ["opt"], ["proc"], ["proc", "self"], ["proc", "self", "fd"], ["root"], ["run"], ["sbin"], ["srv"],
    ["sys"], ["tmp"], ["usr"], ["usr", "bin"], ["usr", "lib"], ["usr", "local"], ["usr", "share"],
    ["var"], ["var", "lib"], ["var", "log"], ["var", "tmp"]]

/-- The names under which a system has its standard input as a file. -/
def inputFiles : List (List String) :=
  [["dev", "stdin"], ["dev", "fd", "0"], ["proc", "self", "fd", "0"]]

namespace Directory

/-- The steps of a path inside a directory; empty ones and single dots lead nowhere. -/
def steps (path : String) : List String :=
  (path.splitOn "/").filter fun s => s != "" && s != "."

/-- What stands inside the directory, by the steps to it. -/
def entry? (d : Directory) (goal : List String) : Option Place :=
  match d.files.find? fun f => steps f.1 == goal with
  | some (_, contents) => some (.file contents)
  | none => if d.files.any fun f => goal.isPrefixOf (steps f.1) then some (.inside goal) else none

/-- What stands in the system, by the steps to it from the root. -/
def systemEntry? (d : Directory) (goal : List String) : Option Place :=
  if goal = ["dev", "null"] then some (.file .empty)
  else if inputFiles.contains goal then some (.file d.input)
  else if systemDirectories.contains goal then some (.system goal)
  else none

/-- Goes up one step, from the root to itself. -/
def up : Place → Place
  | .inside [] => .around
  | .inside steps => .inside steps.dropLast
  | .system steps => .system steps.dropLast
  | place => place

/-- Goes down to something in a directory. -/
def down? (d : Directory) (name : String) : Place → Option Place
  | .inside steps => d.entry? (steps ++ [name])
  | .system steps => d.systemEntry? (steps ++ [name])
  | _ => none

/-- Follows one step of a path. -/
def follow (d : Directory) : Place → String → Except FileFault Place
  | .file _, _ => .error .notDirectory
  | place, step =>
    if step = "" || step = "." then .ok place
    else if step = ".." then .ok (up place)
    else if maxStep < step.utf8ByteSize then .error .nameTooLong
    else match d.down? step place with
      | some place => .ok place
      | none => .error .absent

/-- Reads the file at a path. -/
def read (d : Directory) (path : String) : Except FileFault ByteArray := do
  if maxPath < path.utf8ByteSize then throw .nameTooLong
  let start := if path.startsWith "/" then Place.system [] else .inside []
  match ← (path.splitOn "/").foldlM d.follow start with
  | .file contents => return contents
  | _ => throw .directory

/-- Writes a file of the directory. -/
def write (d : Directory) (path text : String) : Except FileFault Directory :=
  match d.entry? (steps path) with
  | some (.inside _) => .error .directory
  | _ => .ok { d with files := (path, text.toUTF8) :: d.files }

/-- The report of a task. -/
def taskReport (d : Directory) (m : Machine) (task : Task) : Report :=
  match task with
  | .repl => Repl.transcript m d.input
  | .version => versionReport
  | .script path => Command.run.report m path (d.read path)
  | .file command path => command.report m path (d.read path)

/-- The report of an invocation; a log is opened first. -/
def report (d : Directory) (m : Machine) (i : Invocation) : Report :=
  if i.log then
    match d.write logPath i.opening with
    | .ok d => d.taskReport m i.task
    | .error fault => (logFailure fault).report ""
  else d.taskReport m i.task

end Directory

end Scriptling
