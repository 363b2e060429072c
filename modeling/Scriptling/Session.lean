/-
  Sessions — programs run one after the other on one machine.

  * `Library`: the host functions that a session starts with;
  * `Session.run`, `Session.interpret`, `Session.evaluate`, `Session.execute`: the ways to
    give a machine a program text, resolved or not, whole or piece by piece;
  * `Session.perform`: one such step, with what it printed.
-/
import Scriptling.Evaluation

namespace Scriptling

/-! ## Host functions -/

/-- A host function before it is registered. -/
structure HostFunction where
  name : String
  arity : Nat
  operation : HostOperation

/-- The host functions of every script. -/
def standardLibrary : List HostFunction := [⟨"clock", 0, .clock⟩]

/-- Host functions that look into values and call back into the machine. -/
def hostLibrary : List HostFunction :=
  [⟨"double", 1, .double⟩, ⟨"type", 1, .typeName⟩, ⟨"str", 1, .text⟩, ⟨"num", 1, .number⟩,
    ⟨"arity", 1, .arity⟩, ⟨"apply", 2, .apply⟩, ⟨"names", 0, .names⟩, ⟨"nested", 1, .nested⟩]

/-- Binds a host function to its name among the globals. -/
def Machine.register (m : Machine) (f : HostFunction) : Machine :=
  let native : Native := ⟨m.nextIdentity, f.name, f.arity, f.operation⟩
  { m with
    frames := m.frames.define globalScope f.name (.callable (.native native))
    nextIdentity := m.nextIdentity + 1 }

/-- A machine with the given host functions and output. -/
def Machine.start (library : List HostFunction) (sink : Sink) : Machine :=
  library.foldl Machine.register { sink := sink }

/-! ## Steps -/

namespace Session

/-- More fuel than any program can use up in a lifetime. -/
def ample : Nat := Nat.pow 2 62

/-- Runs a program text. -/
def run (source : String) : Eval Unit := Eval.run ample source

/-- Runs a program text without resolving it: all references are to globals. -/
def interpret (source : String) : Eval Unit := do
  let program ← Eval.parseText source
  Eval.interpret ample program

/-- The value of a program text that is a single expression; other programs are only
    resolved. -/
def evaluate (source : String) : Eval (Option Value) := do
  match ← Eval.load source with
  | [.expression e] => do
    let v ← Eval.evaluate ample e
    return some v
  | _ => return none

/-- Executes the statements of a program text one by one, without resolving it and going
    on after errors. -/
def execute (source : String) : Eval (List (Except Error Completion)) := do
  let program ← Eval.parseText source
  program.mapM fun s => Eval.attempt (Eval.execute ample s)

/-- A step of a session: its result and what it printed, and the machine after it. -/
def perform {α : Type} (act : Eval α) (m : Machine) :
    Option ((Except Error α × ByteArray) × Machine) :=
  match act m with
  | none => none
  | some (result, after) =>
    let printed := after.sink.accepted.extract m.sink.accepted.size after.sink.accepted.size
    some ((result, printed), after)

end Session

end Scriptling
