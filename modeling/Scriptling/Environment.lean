/-
  Environments — what the names of a running program are bound to.

  The bindings of a scope are a frame; frames live in one store and are known by their
  place in it.  A scope is the chain of the frames that are visible in it, innermost
  first, ending in the frame of the globals.

  * `Frames.get`, `Frames.assign`: by name, in the nearest frame of a chain that binds it
    (`Frames.find`);
  * `Frames.getAt`, `Frames.assignAt`: in the frame a given distance out, which has to bind
    the name (`Frames.findAt`);
  * `Frames.define`: always in the innermost frame.

  Assigning never binds a new name.  `Frames.frame_set` and `Frames.frame_child` say what
  becomes of each frame.
-/
import Scriptling.Bindings
import Scriptling.Error
import Scriptling.Syntax

namespace Scriptling

/-- The places of the frames visible in a scope, innermost first. -/
abbrev Chain := List Nat

/-- The place of the frame of the global names. -/
def globalFrame : Nat := 0

/-- The scope in which only the globals are visible. -/
def globalScope : Chain := [globalFrame]

/-- A store of frames. -/
structure Frames (α : Type) where
  frames : Array (Bindings α)

namespace Frames

variable {α : Type}

/-- A store in which nothing is bound: it holds the frame of the globals. -/
def root : Frames α := ⟨#[.empty]⟩

/-- The bindings of a frame. -/
def frame (fs : Frames α) (i : Nat) : Bindings α := fs.frames[i]?.getD .empty

/-- A new frame inside a scope: the scope it makes, and the store with it. -/
def child (fs : Frames α) (scope : Chain) (bindings : Bindings α) : Chain × Frames α :=
  (fs.frames.size :: scope, ⟨fs.frames.push bindings⟩)

/-- Binds a name in one frame. -/
def set (fs : Frames α) (i : Nat) (x : String) (v : α) : Frames α :=
  ⟨fs.frames.modify i fun b => b.set x v⟩

/-- Binds a name in the innermost frame of a scope. -/
def define (fs : Frames α) (scope : Chain) (x : String) (v : α) : Frames α :=
  match scope with
  | [] => fs
  | i :: _ => fs.set i x v

/-- No frame that counts binds the name. -/
def undefined (name : Name) : Error := .runtime name.line (.undefinedVariable name.text)

/-- The nearest frame of a scope that binds a name. -/
def find (fs : Frames α) (scope : Chain) (name : Name) : Except Error Nat :=
  match scope.find? fun i => (fs.frame i).contains name.text with
  | some i => .ok i
  | none => .error (undefined name)

/-- The frame a given distance out, which has to bind a name. -/
def findAt (fs : Frames α) (scope : Chain) (distance : Nat) (name : Name) :
    Except Error Nat :=
  match scope[distance]? with
  | none => .error (.runtime 0 .scopeOutOfRange)
  | some i => if (fs.frame i).contains name.text then .ok i else .error (undefined name)

/-- The value of a name in one frame. -/
def value (fs : Frames α) (i : Nat) (name : Name) : Except Error α :=
  match (fs.frame i).get? name.text with
  | some v => .ok v
  | none => .error (undefined name)

/-- The value of a name in a scope. -/
def get (fs : Frames α) (scope : Chain) (name : Name) : Except Error α := do
  fs.value (← fs.find scope name) name

/-- The value of a name in the frame a given distance out. -/
def getAt (fs : Frames α) (scope : Chain) (distance : Nat) (name : Name) : Except Error α := do
  fs.value (← fs.findAt scope distance name) name

/-- Replaces the value of a name in a scope. -/
def assign (fs : Frames α) (scope : Chain) (name : Name) (v : α) : Except Error (Frames α) := do
  return fs.set (← fs.find scope name) name.text v

/-- Replaces the value of a name in the frame a given distance out. -/
def assignAt (fs : Frames α) (scope : Chain) (distance : Nat) (name : Name) (v : α) :
    Except Error (Frames α) := do
  return fs.set (← fs.findAt scope distance name) name.text v

/-- The names bound in the innermost frame of a scope, in order. -/
def names (fs : Frames α) (scope : Chain) : List String :=
  match scope with
  | [] => []
  | i :: _ => (fs.frame i).names

/-! ## What the operations do to frames -/

theorem frame_set (fs : Frames α) (i j : Nat) (x : String) (v : α) :
    (fs.set i x v).frame j = if j = i ∧ i < fs.frames.size then (fs.frame j).set x v
      else fs.frame j := by
  unfold frame set
  by_cases h : j = i
  · subst h
    simp only [Array.getElem?_modify, if_true, true_and]
    by_cases hj : j < fs.frames.size <;> simp [hj]
  · have h' : i ≠ j := fun e => h e.symm
    simp [Array.getElem?_modify, h, h']

theorem frame_child (fs : Frames α) (scope : Chain) (b : Bindings α) (j : Nat) :
    (fs.child scope b).2.frame j = if j = fs.frames.size then b else fs.frame j := by
  unfold frame child
  by_cases h : j = fs.frames.size <;> simp [Array.getElem?_push, h]

/-! ## What is found -/

theorem find_spec (fs : Frames α) (scope : Chain) (name : Name) :
    match fs.find scope name with
    | .ok i => (fs.frame i).contains name.text = true
    | .error e => e = undefined name := by
  unfold find
  cases hf : scope.find? fun i => (fs.frame i).contains name.text with
  | none => rfl
  | some i =>
    have hi := List.find?_some hf
    exact hi

end Frames

end Scriptling
