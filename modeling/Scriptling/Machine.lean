/-
  Machines — the state of a running program and its elementary steps.

  * `Sink`: where printed text goes; it may accept only so many bytes;
  * `Machine`: bindings, fields, the current scope, recorded distances and output;
  * `Eval`: computations on a machine, which end in a value or an error, or run out of
    fuel; what was done before an error stays done;
  * `Eval.within`: a computation in another scope; the scope of before is the current one
    again however the computation ends;
  * `Eval.bind_eq_ok`: when one computation after the other succeeds;
  * `Eval.assign_apply`: which frame is assigned to.
-/
import Scriptling.Value

namespace Scriptling

/-! ## Output -/

/-- Where printed text goes. -/
structure Sink where
  /-- The bytes accepted so far. -/
  accepted : ByteArray := .empty
  /-- How many bytes are accepted at all, if there is a limit. -/
  limit : Option Nat := none
  /-- Delivery of the accepted bytes fails. -/
  flushFails : Bool := false

/-- Writes as much of a text as is accepted, and tells whether that was all. -/
def Sink.write (k : Sink) (text : String) : Sink × Bool :=
  let bytes := text.toUTF8
  match k.limit with
  | none => ({ k with accepted := k.accepted ++ bytes }, true)
  | some n =>
    let room := n - k.accepted.size
    ({ k with accepted := k.accepted ++ bytes.extract 0 room }, bytes.size ≤ room)

/-! ## Distances -/

/-- Recorded distances, by site. -/
structure Distances where
  table : Array (Option Nat) := #[]

namespace Distances

/-- The distance recorded for a site. -/
def get? (t : Distances) (site : Nat) : Option Nat := t.table[site]?.join

/-- Records the distance of a site. -/
def record (t : Distances) (site : Nat) (distance : Nat) : Distances :=
  if site < t.table.size then ⟨t.table.setIfInBounds site (some distance)⟩
  else ⟨(t.table ++ Array.replicate (site - t.table.size) none).push (some distance)⟩

theorem get?_record (t : Distances) (site s d : Nat) :
    (t.record site d).get? s = if s = site then some d else t.get? s := by
  unfold record get?
  by_cases h : site < t.table.size
  · simp only [h, if_true, Array.getElem?_setIfInBounds]
    by_cases hs : site = s
    · simp [hs]
    · simp [hs, Ne.symm hs]
  · simp only [h, if_false, Array.getElem?_push, Array.getElem?_append, Array.size_append,
      Array.size_replicate, Array.getElem?_replicate]
    by_cases hs : s = site
    · subst hs
      simp [show t.table.size + (s - t.table.size) = s by omega]
    · simp only [show s ≠ t.table.size + (site - t.table.size) by omega, if_false, hs]
      split
      · rfl
      · next hn =>
        rw [Array.getElem?_eq_none (by omega)]
        split <;> rfl

/-- Records the distances of a program, given latest first. -/
def recordAll (t : Distances) (ds : List (Nat × Nat)) : Distances :=
  ds.foldr (fun d t => t.record d.1 d.2) t

end Distances

/-! ## Machines -/

/-- The state of a running program. -/
structure Machine where
  frames : Frames Value := .root
  /-- The current scope. -/
  scope : Chain := globalScope
  /-- The fields of the instances. -/
  objects : Array (Bindings Value) := #[]
  /-- The next identity to give out. -/
  nextIdentity : Nat := 0
  /-- The next site to give out, in the whole life of the machine.  To come round to a site again, a
      machine word would have to be counted up `2 ^ 64` times, which no run lives to see. -/
  nextSite : Nat := 0
  distances : Distances := {}
  sink : Sink := {}
  /-- The time in milliseconds; it passes when it is told. -/
  time : Nat := 1700000000000
  host : Host := fun _ => .done (.ok .null)
  /-- What has come to the knowledge of the host, latest first. -/
  heard : List HostEvent := []

namespace Machine

/-- Something comes to the knowledge of the host. -/
def hear (m : Machine) (event : HostEvent) : Machine := { m with heard := event :: m.heard }

/-- The names bound in the frame of the globals, in order. -/
def globalNames (m : Machine) : List String := m.frames.names globalScope

/-- The frame with the binding of a reference: its distance leads there from the current
    scope, and without a distance the reference is to a global. -/
def binder (m : Machine) (site : Nat) (name : Name) : Except Error Nat :=
  match m.distances.get? site with
  | some d => m.frames.findAt m.scope d name
  | none => m.frames.find globalScope name

/-- A reference is looked up in a frame that binds its name. -/
theorem binder_bound {m : Machine} {site : Nat} {name : Name} {i : Nat}
    (h : m.binder site name = .ok i) : (m.frames.frame i).contains name.text = true := by
  unfold binder at h
  split at h
  · unfold Frames.findAt at h
    split at h
    · cases h
    · split at h
      · next hc => cases h; exact hc
      · cases h
  · have found := m.frames.find_spec globalScope name
    rw [h] at found
    exact found

end Machine

/-- Computations on a machine. -/
abbrev Eval := ExceptT Error (StateT Machine Option)

namespace Eval

variable {α : Type}

/-- No fuel is left. -/
def exhausted : Eval α := fun _ => none

/-- Fails on the given line. -/
def fail (line : Nat) (fault : RuntimeFault) : Eval α := throw (.runtime line fault)

/-- Goes on with a result that does not depend on the machine. -/
def ofExcept : Except Error α → Eval α
  | .ok a => pure a
  | .error e => throw e

/-- Computes in another scope. -/
def within (scope : Chain) (act : Eval α) : Eval α := fun m =>
  match act { m with scope := scope } with
  | none => none
  | some (result, after) => some (result, { after with scope := m.scope })

/-- Turns an error into a result. -/
def attempt (act : Eval α) : Eval (Except Error α) := fun m =>
  match act m with
  | none => none
  | some (result, after) => some (.ok result, after)

/-! ## Elementary steps -/

/-- A new identity. -/
def freshIdentity : Eval Nat := do
  let i := (← get).nextIdentity
  modify fun m => { m with nextIdentity := i + 1 }
  return i

/-- A new frame inside a scope. -/
def newScope (scope : Chain) (bindings : Bindings Value) : Eval Chain :=
  modifyGet fun m =>
    let (inner, frames) := m.frames.child scope bindings
    (inner, { m with frames := frames })

/-- Binds a name in the current scope. -/
def define (x : String) (v : Value) : Eval Unit :=
  modify fun m => { m with frames := m.frames.define m.scope x v }

/-- The value of a reference. -/
def read (site : Nat) (name : Name) : Eval Value := do
  let m ← get
  ofExcept (do m.frames.value (← m.binder site name) name)

/-- Assigns to a reference. -/
def write (site : Nat) (name : Name) (v : Value) : Eval Unit := do
  let i ← ofExcept ((← get).binder site name)
  modify fun m => { m with frames := m.frames.set i name.text v }

/-- Replaces the value of a name in the current scope. -/
def assign (name : Name) (v : Value) : Eval Unit := do
  let m ← get
  let i ← ofExcept (m.frames.find m.scope name)
  modify fun m => { m with frames := m.frames.set i name.text v }

/-- Prints a line. -/
def print (text : String) : Eval Unit := do
  let whole ← modifyGet fun m =>
    let (sink, whole) := m.sink.write (text ++ "\n")
    (whole, { m with sink := sink })
  unless whole do throw (.output .full)

/-- Delivers what was printed. -/
def flush : Eval Unit := do
  if (← get).sink.flushFails then throw (.output .flush)

/-- A function value that remembers the current scope. -/
def makeClosure (f : Function) : Eval Closure := do
  return ⟨← freshIdentity, f, (← get).scope⟩

/-- A new instance, without fields. -/
def instantiate (t : Template) : Eval Value :=
  modifyGet fun m => (.object t m.objects.size, { m with objects := m.objects.push .empty })

/-- A copy of a method for which `this` is the given instance. -/
def bindMethod (method : Closure) (receiver : Value) : Eval Value := do
  let scope ← newScope method.scope (Bindings.empty.set "this" receiver)
  return .callable (.closure ⟨← freshIdentity, method.function, scope⟩)

/-- A property of an instance: a field, or else a method. -/
def property (t : Template) (object : Nat) (name : Name) : Eval Value := do
  let fields := (← get).objects[object]?.getD .empty
  match fields.get? name.text with
  | some v => return v
  | none =>
    match t.methods.get? name.text with
    | some method => bindMethod method (.object t object)
    | none => fail name.line (.undefinedProperty name.text)

/-- Sets a field of an instance. -/
def setField (object : Nat) (x : String) (v : Value) : Eval Unit :=
  modify fun m => { m with objects := m.objects.modify object fun b => b.set x v }

/-- Something comes to the knowledge of the host. -/
def hear (event : HostEvent) : Eval Unit := modify fun m => m.hear event

/-- Tells the time, which passes. -/
def tick : Eval Nat := modifyGet fun m => (m.time, { m with time := m.time + 1 })

/-! ## How computations compose -/

theorem bind_apply {β : Type} (act : Eval α) (f : α → Eval β) (m : Machine) :
    (act >>= f) m = match act m with
      | none => none
      | some (.ok a, m₁) => f a m₁
      | some (.error e, m₁) => some (.error e, m₁) := by
  have h : (act >>= f) m = (act m).bind fun r => ExceptT.bindCont f r.1 r.2 := rfl
  rw [h]
  rcases act m with _ | ⟨r, m₁⟩
  · rfl
  · cases r <;> rfl

theorem bind_eq_ok {β : Type} {act : Eval α} {f : α → Eval β} {m m' : Machine} {b : β} :
    (act >>= f) m = some (.ok b, m') ↔
      ∃ a m₁, act m = some (.ok a, m₁) ∧ f a m₁ = some (.ok b, m') := by
  rw [bind_apply]
  rcases act m with _ | ⟨_ | a, m₁⟩
  · simp
  · simp
  · constructor
    · exact fun h => ⟨a, m₁, rfl, h⟩
    · rintro ⟨_, _, h, h'⟩; cases h; exact h'

/-- A computation after one whose errors are caught. -/
theorem attempt_bind_eq {β : Type} {act : Eval α} {f : Except Error α → Eval β} {m m' : Machine}
    {r : Except Error β} :
    (attempt act >>= f) m = some (r, m') ↔
      ∃ r₁ m₁, act m = some (r₁, m₁) ∧ f r₁ m₁ = some (r, m') := by
  rw [bind_apply]
  unfold attempt
  rcases act m with _ | ⟨r₁, m₁⟩
  · simp
  · constructor
    · exact fun h => ⟨r₁, m₁, rfl, h⟩
    · rintro ⟨_, _, h, h'⟩; cases h; exact h'

theorem within_eq {scope : Chain} {act : Eval α} {m m' : Machine} {r : Except Error α} :
    within scope act m = some (r, m') ↔
      ∃ m₁, act { m with scope := scope } = some (r, m₁) ∧ m' = { m₁ with scope := m.scope } := by
  unfold within
  rcases act { m with scope := scope } with _ | ⟨r₁, m₁⟩
  · simp
  · simp only [Option.some.injEq, Prod.mk.injEq]
    constructor
    · rintro ⟨h, h'⟩; exact ⟨m₁, ⟨h, rfl⟩, h'.symm⟩
    · rintro ⟨_, ⟨h, rfl⟩, h'⟩; exact ⟨h, h'.symm⟩

/-- What a computation in a new scope comes to, which is left in the end. -/
theorem inside_apply {base : Chain} {b : Bindings Value} {act : Eval α} {m : Machine} :
    (newScope base b >>= fun scope => within scope act) m =
      (act { m with
          scope := m.frames.frames.size :: base, frames := (m.frames.child base b).2 }).map
        fun o => (o.1, { o.2 with scope := m.scope }) := by
  have entered : (newScope base b >>= fun scope => within scope act) m =
      match act { m with
        scope := m.frames.frames.size :: base, frames := (m.frames.child base b).2 } with
      | none => none
      | some (r, m₁) => some (r, { m₁ with scope := m.scope }) := rfl
  rw [entered]
  split <;> next h => rw [h]; rfl

/-- A computation in a new scope, which is left in the end. -/
theorem inside_eq {base : Chain} {b : Bindings Value} {act : Eval α} {m m' : Machine}
    {r : Except Error α} :
    (newScope base b >>= fun scope => within scope act) m = some (r, m') ↔
      ∃ m₁, act { m with
          scope := m.frames.frames.size :: base, frames := (m.frames.child base b).2 } =
        some (r, m₁) ∧ m' = { m₁ with scope := m.scope } :=
  within_eq

/-! ## Assigning by name -/

/-- What is assigned to a name lands in the nearest frame that binds it. -/
theorem assign_apply (name : Name) (v : Value) (m : Machine) :
    assign name v m = match m.frames.find m.scope name with
      | .ok i => some (.ok (), { m with frames := m.frames.set i name.text v })
      | .error e => some (.error e, m) := by
  have start : assign name v m = (ofExcept (m.frames.find m.scope name) >>= fun i =>
      modify fun m => { m with frames := m.frames.set i name.text v } : Eval Unit) m := rfl
  rw [start]
  cases m.frames.find m.scope name with
  | ok i => rfl
  | error e => rfl

/-- If the innermost frame binds the name, that is the one. -/
theorem assign_eq_define {name : Name} {v : Value} {m : Machine} {F : Nat} {base : Chain}
    (hs : m.scope = F :: base) (hb : (m.frames.frame F).contains name.text = true) :
    assign name v m = define name.text v m := by
  have found : m.frames.find m.scope name = .ok F := by
    simp only [Frames.find, hs, List.find?_cons, hb]
  have defined : define name.text v m =
      some (.ok (), { m with frames := m.frames.define m.scope name.text v }) := rfl
  rw [assign_apply, found, defined, hs]
  rfl

end Eval

end Scriptling
