/-
  Footprint — what running something can touch.

  * `Cell`: where values are kept, the bindings of a frame or the fields of an instance;
    `Value.Leads`: the cells that a value refers to;
  * `Machine.Reach`: the cells that can be come by from some roots;
  * `Regime.within`: what is run keeps to the cells that it can reach, and to new ones;
  * `Session.footprint`: so nothing else on the machine changes, and no value leads elsewhere.
-/
import Scriptling.Proofs.Regimes
import Scriptling.Proofs.Steps

namespace Scriptling

/-! ## Cells -/

/-- Where values are kept. -/
inductive Cell where
  /-- The bindings of a frame. -/
  | frame (place : Nat)
  /-- The fields of an instance. -/
  | object (place : Nat)
deriving DecidableEq

/-- **A value refers to a cell**: a function to the frames of the scope it was made in, a struct
    to those of its methods, and an instance to those too and to its fields. -/
inductive Value.Leads : Value → Cell → Prop
  | closure {c : Closure} {F} : F ∈ c.scope → Leads (.callable (.closure c)) (.frame F)
  | struct {t : Template} {x c F} : t.methods.get? x = some c → F ∈ c.scope →
      Leads (.callable (.struct t)) (.frame F)
  | method {t : Template} {i x c F} : t.methods.get? x = some c → F ∈ c.scope →
      Leads (.object t i) (.frame F)
  | fields {t i} : Leads (.object t i) (.object i)

/-- The value is no function of the host. -/
def Value.IsOwn : Value → Prop
  | .callable (.native _) => False
  | _ => True

namespace Machine

/-- What is kept in a cell. -/
def contents (m : Machine) : Cell → Bindings Value
  | .frame F => m.frames.frame F
  | .object i => m.objects[i]?.getD .empty

/-- The cell exists. -/
def Has (m : Machine) : Cell → Prop
  | .frame F => F < m.frames.frames.size
  | .object i => i < m.objects.size

instance (m : Machine) : DecidablePred m.Has
  | .frame F => inferInstanceAs (Decidable (F < m.frames.frames.size))
  | .object i => inferInstanceAs (Decidable (i < m.objects.size))

/-- **A cell can be come by from some roots**, through what is kept in cells. -/
inductive Reach (m : Machine) (roots : Cell → Prop) : Cell → Prop
  | root {cell} : roots cell → Reach m roots cell
  | step {cell x v cell'} : Reach m roots cell → (m.contents cell).get? x = some v →
      v.Leads cell' → Reach m roots cell'

/-- A value of programs that refers only to cells that exist. -/
structure Owns (m : Machine) (v : Value) : Prop where
  own : v.IsOwn
  has : ∀ cell, v.Leads cell → m.Has cell

/-- **A machine without functions of the host, on which no reference dangles.** -/
structure Whole (m : Machine) : Prop where
  root : m.Has (.frame globalFrame)
  scope : ∀ F ∈ m.scope, m.Has (.frame F)
  contents : ∀ cell x v, (m.contents cell).get? x = some v → m.Owns v

/-- The cells that something can begin with in a scope: the frames of the scope and that of the
    globals. -/
def frameRoots (scope : Chain) (cell : Cell) : Prop :=
  ∃ F, (F ∈ scope ∨ F = globalFrame) ∧ cell = .frame F

/-- The cells that a call can begin with: those that the callable and its arguments refer to, and
    the frame of the globals. -/
def callRoots (c : Callable) (args : List Value) (cell : Cell) : Prop :=
  cell = .frame globalFrame ∨ ∃ v ∈ Value.callable c :: args, v.Leads cell

/-- A cell that has come up between two machines. -/
def Created (m m' : Machine) (cell : Cell) : Prop := ¬ m.Has cell ∧ m'.Has cell

/-- **A value leads only to cells that could be reached from some roots on the first machine, or
    have come up since.** -/
def Covers (roots : Cell → Prop) (m m' : Machine) (v : Value) : Prop :=
  ∀ cell, v.Leads cell → m.Reach roots cell ∨ m.Created m' cell

/-- **Between two machines only what can be reached from some roots has been touched**: other
    cells are as before, and what is kept in those that can be reached and in new ones leads only
    to such cells. -/
structure Touches (roots : Cell → Prop) (m m' : Machine) : Prop where
  whole : m'.Whole
  untouched : ∀ cell, m.Has cell → ¬ m.Reach roots cell → m'.contents cell = m.contents cell
  stored : ∀ cell, m.Reach roots cell ∨ m.Created m' cell → ∀ x v,
    (m'.contents cell).get? x = some v → m.Covers roots m' v

/-! ## Cells under the elementary steps -/

variable {m m' : Machine}

theorem Grown.has (h : m.Grown m') {cell : Cell} (hc : m.Has cell) : m'.Has cell := by
  cases cell with
  | frame F => exact Nat.lt_of_lt_of_le hc h.frames
  | object i => exact Nat.lt_of_lt_of_le hc h.objects

theorem Owns.mono {v : Value} (hv : m.Owns v) (h : m.Grown m') : m'.Owns v :=
  ⟨hv.own, fun cell hc => h.has (hv.has cell hc)⟩

/-- Nothing is kept in a cell that does not exist. -/
theorem contents_of_not_has {cell : Cell} (h : ¬ m.Has cell) (x : String) :
    (m.contents cell).get? x = none := by
  cases cell with
  | frame F => simp [contents, Frames.frame, Array.getElem?_eq_none (Nat.le_of_not_lt h)]
  | object i => simp [contents, Array.getElem?_eq_none (Nat.le_of_not_lt h)]

theorem contents_child (m : Machine) (base : Chain) (b : Bindings Value) (cell : Cell) :
    contents { m with frames := (m.frames.child base b).2 } cell =
      if cell = .frame m.frames.frames.size then b else m.contents cell := by
  cases cell with
  | frame F => simp [contents, Frames.frame_child]
  | object i => simp [contents]

theorem contents_set {F : Nat} (hF : m.Has (.frame F)) (x : String) (v : Value) (cell : Cell) :
    contents { m with frames := m.frames.set F x v } cell =
      if cell = .frame F then (m.contents cell).set x v else m.contents cell := by
  have hF : F < m.frames.frames.size := hF
  cases cell with
  | frame G => simp [contents, Frames.frame_set, hF]
  | object i => simp [contents]

theorem contents_object (m : Machine) (cell : Cell) :
    contents { m with objects := m.objects.push .empty } cell = m.contents cell := by
  cases cell with
  | frame F => rfl
  | object i =>
    simp only [contents, Array.getElem?_push]
    split
    · next h => simp [h]
    · rfl

theorem contents_setField {i : Nat} (hi : m.Has (.object i)) (x : String) (v : Value)
    (cell : Cell) :
    contents { m with objects := m.objects.modify i fun b => b.set x v } cell =
      if cell = .object i then (m.contents cell).set x v else m.contents cell := by
  have hi : i < m.objects.size := hi
  cases cell with
  | frame F => simp [contents]
  | object j =>
    simp only [contents, Array.getElem?_modify, Cell.object.injEq]
    by_cases hj : j = i
    · subst hj
      simp [hi]
    · simp [hj, Ne.symm hj]

end Machine

/-! ## Keeping to some cells -/

/-- A value leads to some of the cells only, all of which exist. -/
structure Machine.Lends (m : Machine) (A : Cell → Prop) (v : Value) : Prop extends m.Owns v where
  leads : ∀ cell, v.Leads cell → A cell

/-- **From one machine to another, what is kept in some cells only has changed**, and all values
    in them lead to such cells. -/
structure Machine.Confines (A : Cell → Prop) (m₀ m : Machine) : Prop where
  grown : m₀.Grown m
  scope : ∀ F, F ∈ m.scope ∨ F = globalFrame → A (.frame F) ∧ m.Has (.frame F)
  inside : ∀ cell x v, A cell → (m.contents cell).get? x = some v → m.Lends A v
  outside : ∀ cell, ¬ A cell → m.contents cell = m₀.contents cell

namespace Machine

variable {A : Cell → Prop} {m₀ m m' : Machine} {v : Value}

theorem Lends.mono (hv : m.Lends A v) (h : m.Grown m') : m'.Lends A v :=
  { hv.toOwns.mono h with leads := hv.leads }

/-- Values that lead nowhere. -/
theorem lends_plain (h : v.IsPlain) : m.Lends A v := by
  have nowhere (cell : Cell) (hc : v.Leads cell) : False := by cases hc <;> exact h
  refine ⟨⟨?_, fun cell hc => (nowhere cell hc).elim⟩, fun cell hc => (nowhere cell hc).elim⟩
  cases v with
  | callable => exact h.elim
  | _ => trivial

theorem lends_closure {c : Closure} : m.Lends A (.callable (.closure c)) ↔
    ∀ F ∈ c.scope, A (.frame F) ∧ m.Has (.frame F) := by
  constructor
  · exact fun h F hF => ⟨h.leads _ (.closure hF), h.has _ (.closure hF)⟩
  · intro h
    refine ⟨⟨trivial, fun cell hc => ?_⟩, fun cell hc => ?_⟩
    · cases hc with | closure hF => exact (h _ hF).2
    · cases hc with | closure hF => exact (h _ hF).1

theorem lends_struct {t : Template} : m.Lends A (.callable (.struct t)) ↔
    ∀ x c, t.methods.get? x = some c → ∀ F ∈ c.scope, A (.frame F) ∧ m.Has (.frame F) := by
  constructor
  · exact fun h x c hc F hF => ⟨h.leads _ (.struct hc hF), h.has _ (.struct hc hF)⟩
  · intro h
    refine ⟨⟨trivial, fun cell hc => ?_⟩, fun cell hc => ?_⟩
    · cases hc with | struct hc hF => exact (h _ _ hc _ hF).2
    · cases hc with | struct hc hF => exact (h _ _ hc _ hF).1

theorem lends_object {t : Template} {i : Nat} : m.Lends A (.object t i) ↔
    m.Lends A (.callable (.struct t)) ∧ A (.object i) ∧ m.Has (.object i) := by
  rw [lends_struct]
  constructor
  · refine fun h => ⟨fun x c hc F hF => ?_, h.leads _ .fields, h.has _ .fields⟩
    exact ⟨h.leads _ (.method hc hF), h.has _ (.method hc hF)⟩
  · rintro ⟨h, hA, hi⟩
    refine ⟨⟨trivial, fun cell hc => ?_⟩, fun cell hc => ?_⟩
    · cases hc with
      | method hc hF => exact (h _ _ hc _ hF).2
      | fields => exact hi
    · cases hc with
      | method hc hF => exact (h _ _ hc _ hF).1
      | fields => exact hA

/-- Nothing in any cell has changed. -/
theorem Confines.same (h : Confines A m₀ m) (hg : m.Grown m') (hs : m'.scope = m.scope)
    (hsame : ∀ cell, m'.contents cell = m.contents cell) : Confines A m₀ m' where
  grown := h.grown.trans hg
  scope F hF := by
    rw [hs] at hF
    exact ⟨(h.scope F hF).1, hg.has (h.scope F hF).2⟩
  inside cell x v hA hv := by
    rw [hsame cell] at hv
    exact (h.inside cell x v hA hv).mono hg
  outside cell hA := (hsame cell).trans (h.outside cell hA)

/-- One of the cells is written to, or is new. -/
theorem Confines.change (h : Confines A m₀ m) (hg : m.Grown m') (hs : m'.scope = m.scope)
    {cell : Cell} (hcell : A cell)
    (hsame : ∀ cell', cell' ≠ cell → m'.contents cell' = m.contents cell')
    (hnew : ∀ x v, (m'.contents cell).get? x = some v → m'.Lends A v) : Confines A m₀ m' where
  grown := h.grown.trans hg
  scope F hF := by
    rw [hs] at hF
    exact ⟨(h.scope F hF).1, hg.has (h.scope F hF).2⟩
  inside cell' x v hA hv := by
    by_cases hc : cell' = cell
    · rw [hc] at hv
      exact hnew x v hv
    · rw [hsame cell' hc] at hv
      exact (h.inside cell' x v hA hv).mono hg
  outside cell' hA := by
    have hc : cell' ≠ cell := fun hc => hA (hc ▸ hcell)
    rw [hsame cell' hc]
    exact h.outside cell' hA

/-- Something is put into one of the cells. -/
theorem Confines.put (h : Confines A m₀ m) (hg : m.Grown m') (hs : m'.scope = m.scope)
    {cell : Cell} (hcell : A cell) {x : String} (hv : m.Lends A v)
    (hput : ∀ cell', m'.contents cell' =
      if cell' = cell then (m.contents cell').set x v else m.contents cell') :
    Confines A m₀ m' := by
  refine h.change hg hs hcell (fun cell' hc => by rw [hput, if_neg hc]) fun y u hu => ?_
  rw [hput, if_pos rfl, Bindings.get?_set] at hu
  split at hu
  · cases hu; exact hv.mono hg
  · exact (h.inside cell y u hcell hu).mono hg

/-- The machine stands in another scope. -/
theorem Confines.enter (h : Confines A m₀ m) {scope : Chain}
    (hs : ∀ F ∈ scope, A (.frame F) ∧ m.Has (.frame F)) :
    Confines A m₀ { m with scope := scope } where
  grown := ⟨h.grown.frames, h.grown.objects⟩
  scope F hF := by
    have hF' := hF.elim (hs F) fun h' => h.scope F (Or.inr h')
    exact hF'
  inside cell x v hA hv := (h.inside cell x v hA hv).mono (.of_eq rfl rfl)
  outside := h.outside

end Machine

/-- What comes up where only some cells are touched, from the given machine on. -/
def Regime.within (m₀ : Machine) (A : Cell → Prop) : Regime where
  machine := m₀.Confines A
  value m v := m.Lends A v
  scope m c := ∀ F ∈ c, A (.frame F) ∧ m.Has (.frame F)
  error _ := True
  hosted := False

/-- **Running something touches no cells but those that it is allowed to**, and new ones. -/
theorem Regime.stable_within {m₀ : Machine} {A : Cell → Prop} (hA : ∀ cell, ¬ m₀.Has cell → A cell) :
    (Regime.within m₀ A).Stable where
  value_mono hg hv := hv.mono hg
  scope_mono hg hc F hF := ⟨(hc F hF).1, hg.has (hc F hF).2⟩
  plain := Machine.lends_plain
  closure := Machine.lends_closure
  template := Machine.lends_struct
  native hn := hn.own.elim
  runtime _ := trivial
  output _ := trivial
  other {m m'} hm hf hs ho _ _ := by
    have same (cell : Cell) : m'.contents cell = m.contents cell := by
      cases cell <;> simp [Machine.contents, hf, ho]
    exact hm.same (.of_eq hf ho) hs same
  current hm F hF := hm.scope F (Or.inl hF)
  enter {m base b} hm hbase hb := by
    have hg := m.grown_child base b
    have hnew : A (.frame m.frames.frames.size) := hA _ (Nat.not_lt_of_le hm.grown.frames)
    have pushed : m₀.Confines A { m with frames := (m.frames.child base b).2 } := by
      refine hm.change hg rfl hnew (fun cell hc => ?_) fun x v hv => ?_
      · rw [Machine.contents_child, if_neg hc]
      · rw [Machine.contents_child, if_pos rfl] at hv
        exact (hb x v hv).mono hg
    refine pushed.enter (List.forall_mem_cons.2 ⟨⟨hnew, ?_⟩, fun F hF => ?_⟩)
    · simp [Machine.Has, Frames.child]
    · exact ⟨(hbase F hF).1, hg.has (hbase F hF).2⟩
  leave {m m'} hm hg hm' := by
    exact hm'.enter fun F hF => ⟨(hm.scope F (Or.inl hF)).1, hg.has (hm.scope F (Or.inl hF)).2⟩
  read hm hF hv := hm.inside (.frame _) _ _ (hm.scope _ hF).1 hv
  set {m F x v} hm hF hv :=
    hm.put (m.grown_set F x v) rfl (hm.scope F hF).1 hv (Machine.contents_set (hm.scope F hF).2 x v)
  object {m t} hm ht := by
    have hg := m.grown_object
    refine ⟨hm.same hg rfl (Machine.contents_object m), Machine.lends_object.2 ⟨ht.mono hg, ?_, ?_⟩⟩
    · exact hA _ (Nat.not_lt_of_le hm.grown.objects)
    · simp [Machine.Has]
  field hm ho hv := hm.inside (.object _) _ _ (Machine.lends_object.1 ho).2.1 hv
  setField {m t i x v} hm ho hv := by
    obtain ⟨-, hi, hhas⟩ := Machine.lends_object.1 ho
    exact hm.put (m.grown_setField i x v) rfl hi hv (Machine.contents_setField hhas x v)
  method ho hc := Machine.lends_struct.1 (Machine.lends_object.1 ho).1 _ _ hc
  hear h := h.elim
  host h := h.elim

/-! ## Keeping to what can be reached -/

namespace Machine

variable {roots : Cell → Prop} {m m₁ : Machine}

/-- The cells that can be reached, and those that do not exist. -/
def Free (m : Machine) (roots : Cell → Prop) (cell : Cell) : Prop :=
  m.Reach roots cell ∨ ¬ m.Has cell

/-- What can be reached keeps to itself. -/
theorem Whole.confines (h : m.Whole) {scope : Chain} (hs : ∀ F ∈ scope, m.Has (.frame F))
    (hroots : ∀ F, F ∈ scope ∨ F = globalFrame → roots (.frame F)) :
    m.Confines (m.Free roots) { m with scope := scope } where
  grown := .of_eq rfl rfl
  scope F hF := ⟨Or.inl (.root (hroots F hF)), hF.elim (hs F) fun hF => hF ▸ h.root⟩
  inside cell x v hA hv := by
    have hv : (m.contents cell).get? x = some v := hv
    refine { (h.contents cell x v hv).mono (.of_eq rfl rfl) with leads := fun cell' hc => ?_ }
    rcases hA with hreach | hnot
    · exact Or.inl (.step hreach hv hc)
    · rw [contents_of_not_has hnot] at hv
      cases hv
  outside cell _ := rfl

theorem Lends.covers {v : Value} (hv : m₁.Lends (m.Free roots) v) : m.Covers roots m₁ v :=
  fun cell hc => (hv.leads cell hc).imp_right fun hnot => ⟨hnot, hv.has cell hc⟩

/-- What is run with the roots at hand, and is left in a scope of before, touches only what can be
    reached from the roots. -/
theorem Whole.touches (h : m.Whole) (hc : m.Confines (m.Free roots) m₁) {scope : Chain}
    (hs : ∀ F ∈ scope, m.Has (.frame F)) : m.Touches roots { m₁ with scope := scope } where
  whole := by
    refine ⟨hc.grown.has h.root, fun F hF => hc.grown.has (hs F hF), fun cell x v hv => ?_⟩
    have hv : (m₁.contents cell).get? x = some v := hv
    by_cases hA : m.Free roots cell
    · exact (hc.inside cell x v hA hv).toOwns.mono (.of_eq rfl rfl)
    · rw [hc.outside cell hA] at hv
      exact (h.contents cell x v hv).mono ⟨hc.grown.frames, hc.grown.objects⟩
  untouched cell hhas hnot := hc.outside cell fun hA => hA.elim hnot fun hn => hn hhas
  stored cell hcell x v hv :=
    (hc.inside cell x v (hcell.imp_right And.left) hv).covers

end Machine

namespace Eval

/-- What is done in a new scope does not depend on the current one, which is the same in the
    end. -/
theorem inside_scope {α : Type} {base : Chain} {b : Bindings Value} {act : Eval α} {m m' : Machine}
    {r : Except Error α}
    (h : (newScope base b >>= fun scope => Eval.within scope act) m = some (r, m'))
    (scope : Chain) :
    (newScope base b >>= fun scope => Eval.within scope act) { m with scope := scope } =
      some (r, { m' with scope := scope }) ∧ m'.scope = m.scope := by
  obtain ⟨m₁, hact, rfl⟩ := inside_eq.1 h
  exact ⟨inside_eq.2 ⟨m₁, hact, rfl⟩, rfl⟩

/-- **A call does not depend on the current scope**, which is the same in the end. -/
theorem call_scope {k : Nat} {c : Callable} {args : List Value} {m m' : Machine}
    {r : Except Error Value} (hc : (Value.callable c).IsOwn)
    (h : Eval.call k c args m = some (r, m')) (scope : Chain) :
    Eval.call k c args { m with scope := scope } = some (r, { m' with scope := scope }) ∧
      m'.scope = m.scope := by
  have result (completion : Completion) : ∃ r, ∀ m, resultOf completion m = some (r, m) := by
    cases completion <;> exact ⟨_, fun _ => rfl⟩
  cases k with
  | zero => cases h
  | succ k =>
    cases c with
    | closure c =>
      unfold Eval.call at h ⊢
      dsimp only at h ⊢
      rw [← bind_assoc, bind_apply] at h ⊢
      generalize hbody : (newScope c.scope (bindParams c.function.params args) >>= fun scope =>
        Eval.within scope (executeAll k c.function.body)) m = outcome at h
      rcases outcome with _ | ⟨r₁, m₁⟩
      · cases h
      obtain ⟨hbody, hscope⟩ := inside_scope hbody scope
      rw [hbody]
      cases r₁ with
      | error e => cases h; exact ⟨rfl, hscope⟩
      | ok completion =>
        obtain ⟨r₂, hr⟩ := result completion
        simp only [hr] at h ⊢
        cases h
        exact ⟨rfl, hscope⟩
    | struct t => cases h; exact ⟨rfl, rfl⟩
    | native n => exact hc.elim

end Eval

/-! ## One after the other -/

theorem Machine.closed_grown : Machine.Closed Machine.Grown where
  refl := .refl
  trans := .trans
  identity _ _ := .of_eq rfl rfl
  frame m base b := m.grown_child base b
  inside {m m₁ scope frames} hnew h := by
    obtain ⟨base, b, hchild⟩ := hnew
    cases hchild
    exact ⟨Nat.le_trans (m.grown_child base b).frames h.frames, h.objects⟩
  define m x v := by
    unfold Frames.define
    split
    · exact .refl m
    · exact m.grown_set _ x v
  write {m F x} _ v := m.grown_set F x v
  print _ _ := .of_eq rfl rfl
  object m := m.grown_object
  field m i x v := m.grown_setField i x v
  hear _ _ := .of_eq rfl rfl
  tick _ := .of_eq rfl rfl
  parse h := by
    obtain ⟨_, -, rfl, -⟩ := Eval.parseText_eq h
    exact .of_eq rfl rfl
  load h := by
    obtain ⟨_, _, rfl⟩ := Eval.load_eq_with h
    exact .of_eq rfl rfl

/-- Frames and instances do not go away. -/
theorem Machine.Later.grown {m m' : Machine} (h : m.Later m') : m.Grown m' :=
  h.respects Machine.closed_grown fun m base b => (m.grown_child base b).trans (.of_eq rfl rfl)

/-! ## Sessions -/

namespace Session

/-- The steps of a session keep a stable regime that permits all errors. -/
theorem Step.machine {P : Regime} (hP : P.Stable) (he : ∀ e, P.error e) {s : Step}
    {m m₁ : Machine} {es : List Error} (hm : P.machine m) (h : s.outcome m = some (es, m₁)) :
    P.machine m₁ := by
  have parsed (source : String) :
      Eval.Under P m (Eval.parseText source) fun _ _ => True := fun r m' hr => by
    obtain ⟨site, -, hm', -⟩ := Eval.parseText_eq hr
    exact ⟨hm' ▸ .of_eq rfl rfl, Eval.parseText_machine hP hm hr, fun _ _ => trivial,
      fun e _ => he e⟩
  have loaded (source : String) : Eval.Under P m (Eval.load source) fun _ _ => True :=
    fun r m' hr => by
      refine ⟨?_, Eval.load_machine hP hm hr, fun _ _ => trivial, fun e _ => he e⟩
      obtain ⟨_, _, hm'⟩ := Eval.load_eq_with hr
      exact hm' ▸ .of_eq rfl rfl
  have ruled := Eval.ruled hP ample
  cases s with
  | run source =>
    obtain ⟨⟨r, m'⟩, hr, hes⟩ := Option.map_eq_some_iff.1 h
    cases hes
    exact (Eval.run_machine hP hm hr).1
  | evaluate source =>
    obtain ⟨⟨r, m'⟩, hr, hes⟩ := Option.map_eq_some_iff.1 h
    cases hes
    refine ((loaded source).bind (R := fun _ _ => True) (fun program _ hm _ => ?_) r _ hr).2.1
    split
    · exact (ruled.evaluate hm _).bind fun v _ hm _ => .pure hm trivial
    · exact .pure hm trivial
  | interpret source =>
    obtain ⟨⟨r, m'⟩, hr, hes⟩ := Option.map_eq_some_iff.1 h
    cases hes
    exact ((parsed source).bind (fun program _ hm _ => ruled.interpret hm program) r _ hr).2.1
  | execute source =>
    obtain ⟨⟨r, m'⟩, hr, hes⟩ := Option.map_eq_some_iff.1 h
    cases hes
    have each (program : List Stmt) {m : Machine} (hm : P.machine m) : Eval.Under P m
        (program.mapM fun s => Eval.attempt (Eval.execute ample s)) fun _ _ => True := by
      induction program generalizing m with
      | nil => exact .pure hm trivial
      | cons s ss ih =>
        rw [List.mapM_cons]
        exact (ruled.execute hm s).attempt.bind fun c _ hm _ =>
          (ih hm).bind fun cs _ hm _ => .pure hm trivial
    exact ((parsed source).bind (fun program _ hm _ => each program hm) r _ hr).2.1

/-- **The machines of sessions without host functions are whole.** -/
theorem Reached.whole {host : Host} {sink : Sink} {time : Nat} {ps : List Pass} {m : Machine}
    (h : Reached (fun _ => True) (Session.start [] host sink time) ps m) : m.Whole := by
  induction h with
  | start =>
    refine ⟨Nat.one_pos, fun F hF => ?_, fun cell x v hv => ?_⟩
    · cases List.mem_singleton.1 hF
      exact Nat.one_pos
    · cases cell with
      | frame F =>
        cases F <;> simp [Machine.contents, Session.start, Machine.start, Frames.frame,
          Frames.root] at hv
      | object i => simp [Machine.contents, Session.start, Machine.start] at hv
  | @step ps m s es m₁ _ _ ho ih =>
    -- every cell may be touched
    have hall : m.Confines (m.Free fun _ => True) m := ih.confines ih.scope fun _ _ => trivial
    have hP : (Regime.within m (m.Free fun _ => True)).Stable := Regime.stable_within fun _ => Or.inr
    have hm₁ : m.Confines (m.Free fun _ => True) m₁ :=
      Step.machine hP (fun _ => trivial) hall ho
    have hscope : m₁.scope = m.scope := Step.respects Machine.closed_scope ho
    have touches := ih.touches hm₁ ih.scope
    rw [← hscope] at touches
    exact touches.whole

/-- **Execution touches only what it can reach.**  On a machine without host functions on which no
    reference dangles, as all of a session without them are:

    * executing a statement and evaluating an expression touch only what can be reached from the
      current scope and the globals, however they end, and what they result in leads only to such
      cells and to new ones;
    * a call touches only what can be reached from the function, its arguments and the globals,
      whatever the current scope is;
    * the body of a later call of the same function has a frame of its own, and sees no frame that
      has come up since the earlier one began: the calls share what their function was made in,
      and no local variables. -/
theorem footprint :
    (∀ (host : Host) (sink : Sink) (time : Nat) (ps : List Pass) (m : Machine),
      Reached (fun _ => True) (start [] host sink time) ps m → m.Whole) ∧
    (∀ (m m' : Machine) (k : Nat), m.Whole →
      (∀ s r, Eval.execute k s m = some (r, m') → m.Touches (Machine.frameRoots m.scope) m' ∧
        ∀ v, r = .ok (.returned v) → m.Covers (Machine.frameRoots m.scope) m' v) ∧
      (∀ e r, Eval.evaluate k e m = some (r, m') → m.Touches (Machine.frameRoots m.scope) m' ∧
        ∀ v, r = .ok v → m.Covers (Machine.frameRoots m.scope) m' v) ∧
      ∀ c args r, (∀ v ∈ .callable c :: args, m.Owns v) → Eval.call k c args m = some (r, m') →
        m.Touches (Machine.callRoots c args) m' ∧
          ∀ v, r = .ok v → m.Covers (Machine.callRoots c args) m' v) ∧
    ∀ (m m₁ m₂ m₃ : Machine) (c : Closure) (b₁ b₂ : Bindings Value) (scope₁ scope₂ : Chain),
      m.Owns (.callable (.closure c)) → Eval.newScope c.scope b₁ m = some (.ok scope₁, m₁) →
      Machine.Later { m₁ with scope := scope₁ } m₂ →
      Eval.newScope c.scope b₂ m₂ = some (.ok scope₂, m₃) →
      (∃ F₁ F₂, scope₁ = F₁ :: c.scope ∧ scope₂ = F₂ :: c.scope ∧ F₁ ∉ scope₂ ∧ F₂ ∉ scope₁) ∧
      ∀ F ∈ scope₂, ¬ m.Has (.frame F) → ¬ m₂.Has (.frame F) := by
  refine ⟨fun _ _ _ _ _ h => h.whole, fun m m' k hm => ?_, ?_⟩
  · have stable (roots : Cell → Prop) : (Regime.within m (m.Free roots)).Stable :=
      Regime.stable_within fun _ => Or.inr
    have current : m.Confines (m.Free (Machine.frameRoots m.scope)) m :=
      hm.confines hm.scope fun F hF => ⟨F, hF, rfl⟩
    have ruled := Eval.ruled (stable (Machine.frameRoots m.scope)) k
    have kept := Eval.respects Machine.closed_scope k
    have back (hscope : m'.scope = m.scope) : ({ m' with scope := m.scope } : Machine) = m' := by
      rw [← hscope]
    refine ⟨fun s r h => ?_, fun e r h => ?_, fun c args r hargs h => ?_⟩
    · obtain ⟨-, hm', hres, -⟩ := ruled.execute current s r m' h
      have touches := hm.touches hm' hm.scope
      rw [back (kept.execute s m r m' h)] at touches
      exact ⟨touches, fun v hv => (hres _ hv).covers⟩
    · obtain ⟨-, hm', hres, -⟩ := ruled.evaluate current e r m' h
      have touches := hm.touches hm' hm.scope
      rw [back (kept.evaluate e m r m' h)] at touches
      exact ⟨touches, fun v hv => (hres _ hv).covers⟩
    · -- a call does as well without a scope
      obtain ⟨h', hscope⟩ := Eval.call_scope (hargs _ List.mem_cons_self).own h []
      have start : m.Confines (m.Free (Machine.callRoots c args)) { m with scope := [] } :=
        hm.confines (List.forall_mem_nil _) fun F hF => by
          rcases hF with hF | rfl
          · cases hF
          · exact Or.inl rfl
      have lent (v : Value) (hv : v ∈ .callable c :: args) :
          Machine.Lends { m with scope := [] } (m.Free (Machine.callRoots c args)) v :=
        { (hargs v hv).mono (.of_eq rfl rfl) with
          leads := fun cell hc => Or.inl (.root (Or.inr ⟨v, hv, hc⟩)) }
      obtain ⟨-, hm', hres, -⟩ := (Eval.ruled (stable (Machine.callRoots c args)) k).call start
        (lent _ List.mem_cons_self) (fun v hv => lent v (List.mem_cons_of_mem _ hv)) r _ h'
      have touches := hm.touches hm' hm.scope
      rw [back hscope] at touches
      exact ⟨touches, fun v hv => (hres v hv).covers⟩
  · intro m m₁ m₂ m₃ c b₁ b₂ scope₁ scope₂ hc h₁ hlater h₂
    cases h₁
    cases h₂
    have captured (F : Nat) (hF : F ∈ c.scope) : F < m.frames.frames.size :=
      hc.has _ (.closure hF)
    have grown : m.frames.frames.size < m₂.frames.frames.size := by
      have hsize := hlater.grown.frames
      simp only [Array.size_push] at hsize
      omega
    refine ⟨⟨_, _, rfl, rfl, fun hF => ?_, fun hF => ?_⟩, fun F hF hnot hhas => ?_⟩
    · rcases List.mem_cons.1 hF with hF | hF
      · omega
      · exact absurd (captured _ hF) (Nat.lt_irrefl _)
    · rcases List.mem_cons.1 hF with hF | hF
      · omega
      · have := captured _ hF
        omega
    · rcases List.mem_cons.1 hF with rfl | hF
      · exact absurd hhas (Nat.lt_irrefl _)
      · exact hnot (captured F hF)

/-- A struct without methods. -/
def bare : Template := ⟨0, "P", .empty⟩

/-- The function `fn (x) { n = x; return P(); }`, made in a frame inside that of the globals. -/
def recorder : Closure where
  identity := 1
  function := .mk none [⟨"x", 1⟩] [.expression (.assign 0 ⟨"n", 1⟩ (.variable 1 ⟨"x", 1⟩)),
    .return 1 (some (.call (.variable 2 ⟨"P", 1⟩) 1 []))] 1
  scope := [2, globalFrame]

/-- A machine on which the struct is a global, nothing leads to the frame of `a`, and `n` is in the
    frame that the function was made in. -/
def littered : Machine where
  frames := ⟨#[Bindings.empty.set "P" (.callable (.struct bare)), Bindings.empty.set "a" .null,
    Bindings.empty.set "n" .null]⟩
  nextIdentity := 2
  nextSite := 3
  distances := ⟨#[some 1, some 0]⟩

theorem littered_kept {cell : Cell} {x : String} {v : Value}
    (hv : (littered.contents cell).get? x = some v) : v = .null ∨ v = .callable (.struct bare) := by
  have bound {y : String} {u : Value} (hu : (Bindings.empty.set y u).get? x = some v) : v = u := by
    rw [Bindings.get?_set] at hu
    split at hu
    · cases hu; rfl
    · simp at hu
  match cell with
  | .frame 0 => exact .inr (bound hv)
  | .frame 1 => exact .inl (bound hv)
  | .frame 2 => exact .inl (bound hv)
  | .frame (_ + 3) => simp [Machine.contents, littered, Frames.frame] at hv
  | .object _ => simp [Machine.contents, littered] at hv

/-- What is kept on the machine leads nowhere. -/
theorem littered_leads {cell cell' : Cell} {x : String} {v : Value}
    (hv : (littered.contents cell).get? x = some v) : ¬ v.Leads cell' := by
  intro h
  rcases littered_kept hv with rfl | rfl
  · cases h
  · cases h with
    | struct hc => simp [bare] at hc

theorem whole_littered : littered.Whole := by
  refine ⟨by decide, List.forall_mem_singleton.2 (by decide), fun cell x v hv => ⟨?_, ?_⟩⟩
  · rcases littered_kept hv with rfl | rfl <;> trivial
  · exact fun cell' h => (littered_leads hv h).elim

theorem reach_littered {roots : Cell → Prop} {cell : Cell} (h : littered.Reach roots cell) :
    roots cell := by
  cases h with
  | root h => exact h
  | step _ hv h => exact (littered_leads hv h).elim

theorem not_reach_littered : ¬ littered.Reach (Machine.frameRoots globalScope) (.frame 1) := by
  intro h
  obtain ⟨F, hF, he⟩ := reach_littered h
  cases he
  simp [globalScope, globalFrame] at hF

theorem not_reach_call : ¬ littered.Reach (Machine.callRoots (.closure recorder) [.bool true])
    (.frame 1) := by
  intro h
  rcases reach_littered h with h | ⟨v, hv, h⟩
  · cases h
  · rcases List.mem_cons.1 hv with rfl | hv
    · cases h with
      | closure hF => simp [recorder, globalFrame] at hF
    · rw [List.mem_singleton.1 hv] at h
      cases h

theorem footprint_littered :
    (∃ m', Eval.execute 2 (.let ⟨"b", 1⟩ none) littered = some (.ok .normal, m') ∧
      m'.contents (.frame 1) = littered.contents (.frame 1)) ∧
    (∃ v m', Eval.evaluate 2 (.function recorder.function) littered = some (.ok v, m') ∧
      littered.Covers (Machine.frameRoots globalScope) m' v) ∧
    (∃ m', Eval.call 10 (.closure recorder) [.bool true] littered =
        some (.ok (.object bare 0), m') ∧
      (m'.frames.frame 2).get? "n" = some (.bool true) ∧
      (m'.frames.frame 3).get? "x" = some (.bool true) ∧
      m'.contents (.frame 1) = littered.contents (.frame 1) ∧
      littered.Covers (Machine.callRoots (.closure recorder) [.bool true]) m' (.object bare 0)) ∧
    ∃ scope₁ scope₂ m₁ m₂ m₃,
      Eval.newScope recorder.scope (Bindings.empty.set "x" (.bool true)) littered =
        some (.ok scope₁, m₁) ∧
      Eval.executeAll 9 recorder.function.body { m₁ with scope := scope₁ } =
        some (.ok (.returned (.object bare 0)), m₂) ∧
      Eval.newScope recorder.scope (Bindings.empty.set "x" (.bool false)) m₂ =
        some (.ok scope₂, m₃) ∧
      ∃ F₁ F₂, scope₁ = F₁ :: recorder.scope ∧ scope₂ = F₂ :: recorder.scope ∧ F₁ ∉ scope₂ ∧
        F₂ ∉ scope₁ := by
  obtain ⟨-, touch, calls⟩ := footprint
  have owns : littered.Owns (.callable (.closure recorder)) :=
    ⟨trivial, fun cell hc => by
      cases hc with
      | closure hF =>
        rcases List.mem_pair.1 hF with rfl | rfl <;> decide⟩
  have flag : littered.Owns (.bool true) :=
    (Machine.lends_plain (A := fun _ => True) (v := .bool true) trivial).toOwns
  have owned : ∀ v ∈ [Value.callable (.closure recorder), .bool true], littered.Owns v :=
    List.forall_mem_cons.2 ⟨owns, List.forall_mem_singleton.2 flag⟩
  obtain ⟨m₁, h₁⟩ : ∃ m', Eval.execute 2 (.let ⟨"b", 1⟩ none) littered =
      some (.ok .normal, m') := ⟨_, rfl⟩
  obtain ⟨v, m₂, h₂⟩ : ∃ v m', Eval.evaluate 2 (.function recorder.function) littered =
      some (.ok v, m') := ⟨_, _, rfl⟩
  obtain ⟨m₃, h₃, hn, hx⟩ : ∃ m', Eval.call 10 (.closure recorder) [.bool true] littered =
        some (.ok (.object bare 0), m') ∧
      (m'.frames.frame 2).get? "n" = some (.bool true) ∧
      (m'.frames.frame 3).get? "x" = some (.bool true) := ⟨_, rfl, rfl, rfl⟩
  have called := (touch _ m₃ 10 whole_littered).2.2 _ _ _ owned h₃
  obtain ⟨scope₁, scope₂, m₄, m₅, m₆, first, body, second⟩ : ∃ scope₁ scope₂ m₄ m₅ m₆,
      Eval.newScope recorder.scope (Bindings.empty.set "x" (.bool true)) littered =
        some (.ok scope₁, m₄) ∧
      Eval.executeAll 9 recorder.function.body { m₄ with scope := scope₁ } =
        some (.ok (.returned (.object bare 0)), m₅) ∧
      Eval.newScope recorder.scope (Bindings.empty.set "x" (.bool false)) m₅ =
        some (.ok scope₂, m₆) := ⟨_, _, _, _, _, rfl, rfl, rfl⟩
  have later : Machine.Later { m₄ with scope := scope₁ } m₅ :=
    .ends (p := ⟨9, .stmts recorder.function.body, { m₄ with scope := scope₁ }⟩)
      (congrArg (Option.map Prod.snd) body)
  refine ⟨⟨m₁, h₁, ?_⟩, ⟨v, m₂, h₂, ?_⟩, ⟨m₃, h₃, hn, hx, ?_, ?_⟩,
    ⟨scope₁, scope₂, m₄, m₅, m₆, first, body, second, ?_⟩⟩
  · exact ((touch _ m₁ 2 whole_littered).1 _ _ h₁).1.untouched _ (by decide) not_reach_littered
  · exact ((touch _ m₂ 2 whole_littered).2.1 _ _ h₂).2 v rfl
  · exact called.1.untouched _ (by decide) not_reach_call
  · exact called.2 _ rfl
  · exact (calls _ _ _ _ recorder _ _ _ _ owns first later second).1

end Session

end Scriptling
