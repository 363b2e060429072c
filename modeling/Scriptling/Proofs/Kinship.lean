/-
  Kinship — machines that differ only in how loops are written in their functions.

  * `Value.Kin`: values that differ only in this;
  * `Host.Blind`: a host that does not look into functions;
  * `Machine.Kin`: two machines in the same state, but for such values;
  * `Machine.Kin.set`, `Machine.Kin.child` and their companions: what the elementary steps do to
    them.
-/
import Scriptling.Proofs.Recasts
import Scriptling.Proofs.Surfaces
import Scriptling.Proofs.Twins

namespace Scriptling

/-! ## Values -/

/-- Functions in the same scope that differ only in how loops are written. -/
structure Closure.Kin (c c' : Closure) : Prop where
  identity : c'.identity = c.identity
  scope : c'.scope = c.scope
  function : Recast Eq (.function c.function) (.function c'.function)

/-- Structs whose methods differ only so. -/
structure Template.Kin (t t' : Template) : Prop where
  identity : t'.identity = t.identity
  name : t'.name = t.name
  methods : ∀ x, Option.Rel Closure.Kin (t.methods.get? x) (t'.methods.get? x)

/-- Callables that differ only so. -/
inductive Callable.Kin : Callable → Callable → Prop
  | closure {c c'} : c.Kin c' → Kin (.closure c) (.closure c')
  | struct {t t'} : t.Kin t' → Kin (.struct t) (.struct t')
  | native {n} : Kin (.native n) (.native n)

/-- **Values that differ only in how loops are written in their functions.** -/
inductive Value.Kin : Value → Value → Prop
  | plain {v : Value} : v.IsPlain → Kin v v
  | callable {c c' : Callable} : c.Kin c' → Kin (.callable c) (.callable c')
  | object {t t' : Template} {i} : t.Kin t' → Kin (.object t i) (.object t' i)

/-- Statements end in the same way, with values that are kin. -/
inductive Completion.Kin : Completion → Completion → Prop
  | normal : Kin .normal .normal
  | broken {line} : Kin (.broken line) (.broken line)
  | continued {line} : Kin (.continued line) (.continued line)
  | returned {v v' : Value} : v.Kin v' → Kin (.returned v) (.returned v')

/-- The same names are bound to values that are kin. -/
def Bindings.Kin (b b' : Bindings Value) : Prop :=
  ∀ x, Option.Rel Value.Kin (b.get? x) (b'.get? x)

/-- The same error, or results that are related. -/
inductive Results {α : Type} (Q : α → α → Prop) : Except Error α → Except Error α → Prop
  | ok {a a'} : Q a a' → Results Q (.ok a) (.ok a')
  | error {e} : Results Q (.error e) (.error e)

/-- The host comes to know the same of values that are kin. -/
inductive HostEvent.Kin : HostEvent → HostEvent → Prop
  | called {key args args'} : List.Forall₂ Value.Kin args args' →
      Kin (.called key args) (.called key args')
  | answered {r r'} : Results Value.Kin r r' → Kin (.answered r) (.answered r')
  | ran {r} : Kin (.ran r) (.ran r)

/-- The host does the same with values that are kin. -/
inductive HostMove.Kin : HostMove → HostMove → Prop
  | done {r r'} : Results Value.Kin r r' → Kin (.done r) (.done r')
  | call {c c' : Callable} {args args'} : c.Kin c' →
      List.Forall₂ Value.Kin args args' → Kin (.call c args) (.call c' args')
  | run {source} : Kin (.run source) (.run source)

/-- **A host is blind if it does not look into functions.** -/
def Host.Blind (host : Host) : Prop :=
  ∀ heard heard', List.Forall₂ HostEvent.Kin heard heard' → (host heard).Kin (host heard')

/-- **Two machines in the same state**, but that loops may be written in different ways in the
    functions on them. -/
structure Machine.Kin (m m' : Machine) : Prop where
  size : m'.frames.frames.size = m.frames.frames.size
  frames : ∀ F, (m.frames.frame F).Kin (m'.frames.frame F)
  objects_size : m'.objects.size = m.objects.size
  objects : ∀ i : Nat, (m.objects[i]?.getD .empty).Kin (m'.objects[i]?.getD .empty)
  scope : m'.scope = m.scope
  identity : m'.nextIdentity = m.nextIdentity
  site : m'.nextSite = m.nextSite
  distances : m'.distances = m.distances
  sink : m'.sink = m.sink
  time : m'.time = m.time
  host : m'.host = m.host
  blind : m.host.Blind
  heard : List.Forall₂ HostEvent.Kin m.heard m'.heard

/-! ### Every value is its own kin -/

theorem Closure.Kin.refl (c : Closure) : c.Kin c := ⟨rfl, rfl, c.function.recast_refl⟩

theorem Template.Kin.refl (t : Template) : t.Kin t :=
  ⟨rfl, rfl, fun x => by cases t.methods.get? x; exacts [.none, .some (.refl _)]⟩

theorem Callable.Kin.refl (c : Callable) : c.Kin c := by
  cases c with
  | closure c => exact .closure (.refl c)
  | struct t => exact .struct (.refl t)
  | native => exact .native

theorem Value.Kin.refl (v : Value) : v.Kin v := by
  cases v with
  | number | string | bool | null => exact .plain trivial
  | object t i => exact .object (.refl t)
  | callable c => exact .callable (.refl c)

theorem Bindings.Kin.refl (b : Bindings Value) : b.Kin b := fun x => by
  cases b.get? x
  exacts [.none, .some (.refl _)]

theorem Results.refl {α : Type} {Q : α → α → Prop} (hQ : ∀ a, Q a a) (r : Except Error α) :
    Results Q r r := by
  cases r
  exacts [.error, .ok (hQ _)]

theorem HostEvent.Kin.refl (event : HostEvent) : event.Kin event := by
  cases event with
  | called => exact .called (List.forall₂_same.2 fun v _ => .refl v)
  | answered r => exact .answered (.refl .refl r)
  | ran => exact .ran

/-- **A machine whose host is blind is its own kin.** -/
theorem Machine.Kin.refl {m : Machine} (h : m.host.Blind) : m.Kin m where
  size := rfl
  frames _ := .refl _
  objects_size := rfl
  objects _ := .refl _
  scope := rfl
  identity := rfl
  site := rfl
  distances := rfl
  sink := rfl
  time := rfl
  host := rfl
  blind := h
  heard := List.forall₂_same.2 fun event _ => .refl event

/-! ### Bindings -/

theorem Bindings.kin_empty : Bindings.Kin .empty .empty := fun x => by simp

namespace Bindings.Kin

variable {b b' : Bindings Value} (h : b.Kin b')
include h

theorem set {v v' : Value} (x : String) (hv : v.Kin v') : (b.set x v).Kin (b'.set x v') := by
  intro y
  rw [Bindings.get?_set, Bindings.get?_set]
  split
  · exact .some hv
  · exact h y

theorem contains_eq (x : String) : b'.contains x = b.contains x := isSome_eq_of_rel (h x)

end Bindings.Kin

/-- The parameters of a function are bound to its arguments. -/
theorem Bindings.kin_bindParams (params : List Name) {args args' : List Value}
    (h : List.Forall₂ Value.Kin args args') :
    (Eval.bindParams params args).Kin (Eval.bindParams params args') := by
  have bound {b b' : Bindings Value} (hb : b.Kin b') :
      ((params.zip args).foldl (fun b p => b.set p.1.text p.2) b).Kin
        ((params.zip args').foldl (fun b p => b.set p.1.text p.2) b') := by
    induction params generalizing args args' b b' with
    | nil => exact hb
    | cons p params ih =>
      cases h with
      | nil => exact hb
      | cons hv h => exact ih h (hb.set p.text hv)
  exact bound kin_empty

/-! ### What operations see of values -/

theorem Callable.Kin.resembles {c c' : Callable} (h : c.Kin c') : c.Resembles c' := by
  cases h with
  | closure hc =>
    exact .closure hc.identity hc.function.title_eq (congrArg List.length hc.function.params_eq)
  | struct ht => exact .struct ht.identity ht.name
  | native => exact .native

theorem Value.Kin.resembles {v v' : Value} (h : v.Kin v') : v.Resembles v' := by
  cases h with
  | plain hp => exact .plain hp
  | callable hc => exact .callable hc.resembles
  | object ht => exact .object ht.name

/-! ### Elementary steps -/

namespace Machine.Kin

variable {m m' : Machine} (h : m.Kin m')
include h

theorem set (F : Nat) (x : String) {v v' : Value} (hv : v.Kin v') :
    Machine.Kin { m with frames := m.frames.set F x v }
      { m' with frames := m'.frames.set F x v' } :=
  { h with
    size := by rw [Agrees.size_set, Agrees.size_set]; exact h.size
    frames := fun G => by
      rw [Frames.frame_set, Frames.frame_set, h.size]
      split
      · exact (h.frames G).set x hv
      · exact h.frames G }

theorem child (base : Chain) {b b' : Bindings Value} (hb : b.Kin b') :
    Machine.Kin { m with frames := (m.frames.child base b).2 }
      { m' with frames := (m'.frames.child base b').2 } :=
  { h with
    size := by simp [Frames.child, h.size]
    frames := fun F => by
      rw [Frames.frame_child, Frames.frame_child, h.size]
      split
      · exact hb
      · exact h.frames F }

theorem enter (scope : Chain) :
    Machine.Kin { m with scope := scope } { m' with scope := scope } :=
  { h with scope := rfl }

/-- A name is bound in the current scope. -/
theorem define (x : String) {v v' : Value} (hv : v.Kin v') :
    Machine.Kin { m with frames := m.frames.define m.scope x v }
      { m' with frames := m'.frames.define m'.scope x v' } := by
  have defined (scope : Chain) : Machine.Kin { m with frames := m.frames.define scope x v }
      { m' with frames := m'.frames.define scope x v' } := by
    cases scope with
    | nil => exact h
    | cons F => exact h.set F x hv
  simpa only [h.scope] using defined m.scope

theorem object : Machine.Kin { m with objects := m.objects.push .empty }
    { m' with objects := m'.objects.push .empty } :=
  { h with
    objects_size := by simp [h.objects_size]
    objects := fun i => by
      have known := h.objects i
      simp only [Array.getElem?_push, h.objects_size]
      split
      · exact Bindings.kin_empty
      · exact known }

theorem setField (i : Nat) (x : String) {v v' : Value} (hv : v.Kin v') :
    Machine.Kin { m with objects := m.objects.modify i fun b => b.set x v }
      { m' with objects := m'.objects.modify i fun b => b.set x v' } := by
  refine { h with objects_size := ?_, objects := fun j => ?_ }
  · simp [h.objects_size]
  · have known := h.objects j
    have hsize := h.objects_size
    simp only [Array.getElem?_modify]
    split
    · by_cases hj : j < m.objects.size
      · simp only [Array.getElem?_eq_getElem hj, Array.getElem?_eq_getElem (hsize ▸ hj),
          Option.map_some, Option.getD_some] at known ⊢
        exact known.set x hv
      · simpa [Array.getElem?_eq_none (Nat.le_of_not_lt hj),
          Array.getElem?_eq_none (Nat.le_of_not_lt (hsize ▸ hj))] using known
    · exact known

theorem globalNames_eq : m'.globalNames = m.globalNames :=
  Bindings.names_eq fun x => (h.frames globalFrame).contains_eq x

theorem contains_eq (F : Nat) : (m'.frames.frame F).contains = (m.frames.frame F).contains :=
  funext fun x => (h.frames F).contains_eq x

/-- A name is bound in the same frame on both machines. -/
theorem find_eq (scope : Chain) (name : Name) :
    m'.frames.find scope name = m.frames.find scope name := by
  simp only [Frames.find, h.contains_eq]

/-- **A reference finds the same frame on both machines.** -/
theorem binder_eq (site : Nat) (name : Name) : m'.binder site name = m.binder site name := by
  simp only [Machine.binder, Frames.findAt, h.distances, h.scope, h.contains_eq, h.find_eq]

end Machine.Kin

end Scriptling
