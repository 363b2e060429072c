/-
  Twins — machines that run a program and the same program with its variables renamed.

  * `Marking`: which frames belong to scopes that are renamed;
  * `Renaming.Alike`: values that differ only in what is renamed in their functions;
  * `Renaming.Twins`: machines on which the same is bound to the names that correspond;
  * `Twins.set`, `Twins.child` and their companions: what the elementary steps do to twins.
-/
import Mathlib.Data.List.Sort
import Scriptling.Proofs.Footprint
import Scriptling.Proofs.Piecewise
import Scriptling.Proofs.Renaming
import Scriptling.Proofs.Surfaces

namespace Scriptling

/-! ## Frames of renamed scopes -/

/-- How many frames there are, and which of them belong to scopes that are renamed. -/
structure Marking where
  size : Nat
  renamed : Nat → Bool

namespace Marking

/-- There may be more frames; those that there were are marked as before. -/
structure Le (W V : Marking) : Prop where
  size : W.size ≤ V.size
  same : ∀ F < W.size, V.renamed F = W.renamed F

theorem Le.refl (W : Marking) : W.Le W := ⟨Nat.le_refl _, fun _ _ => rfl⟩

theorem Le.trans {U V W : Marking} (h : U.Le V) (h' : V.Le W) : U.Le W :=
  ⟨Nat.le_trans h.size h'.size,
    fun F hF => (h'.same F (Nat.lt_of_lt_of_le hF h.size)).trans (h.same F hF)⟩

/-- **A scope fits a depth**: its frame belongs to a scope that is renamed where the depth says
    so. -/
inductive Fits (W : Marking) : Depth → Chain → Prop
  | nil : Fits W none []
  | cons {D E : Depth} {F : Nat} {c} : D.Enters E → F < W.size → W.renamed F = E.isAt 0 →
      Fits W D c → Fits W E (F :: c)

theorem Fits.mono {W V : Marking} (h : W.Le V) {D : Depth} {c : Chain} (hf : W.Fits D c) :
    V.Fits D c := by
  induction hf with
  | nil => exact .nil
  | cons hE hF hr _ ih =>
    exact .cons hE (Nat.lt_of_lt_of_le hF h.size) ((h.same _ hF).trans hr) ih

theorem Fits.get {W : Marking} {D : Depth} {scope : Chain} (h : W.Fits D scope) {i F : Nat}
    (hi : scope[i]? = some F) : F < W.size ∧ W.renamed F = D.isAt i := by
  induction h generalizing i with
  | nil => cases hi
  | cons hE hF hr _ ih =>
    cases i with
    | zero => cases hi; exact ⟨hF, hr⟩
    | succ i => rw [hE.isAt_succ]; exact ih hi

/-- One more frame. -/
def child (W : Marking) (renamed : Bool) : Marking where
  size := W.size + 1
  renamed F := if F = W.size then renamed else W.renamed F

theorem le_child (W : Marking) (b : Bool) : W.Le (W.child b) :=
  ⟨Nat.le_succ _, fun _ hF => if_neg (Nat.ne_of_lt hF)⟩

theorem Fits.child {W : Marking} {D E : Depth} {c : Chain} (h : W.Fits D c) (hE : D.Enters E) :
    (W.child (E.isAt 0)).Fits E (W.size :: c) :=
  .cons hE (Nat.lt_succ_self _) (if_pos rfl) (h.mono (W.le_child _))

/-- No frame belongs to a scope that is renamed. -/
def blank (size : Nat) : Marking := ⟨size, fun _ => false⟩

theorem fits_blank {size : Nat} {c : Chain} (h : ∀ F ∈ c, F < size) : (blank size).Fits none c := by
  induction c with
  | nil => exact .nil
  | cons F c ih =>
    obtain ⟨hF, hc⟩ := List.forall_mem_cons.1 h
    exact .cons .outside hF rfl (ih hc)

end Marking

/-! ## Optional things -/

section

variable {α β : Type} {R S : α → β → Prop} {a : Option α} {b : Option β}

theorem rel_imp (hRS : ∀ a b, R a b → S a b) (h : Option.Rel R a b) : Option.Rel S a b := by
  cases h with
  | some h => exact .some (hRS _ _ h)
  | none => exact .none

theorem isSome_eq_of_rel (h : Option.Rel R a b) : b.isSome = a.isSome := by
  cases h <;> rfl

end

/-- Where the same names are bound, the names are the same. -/
theorem Bindings.names_eq {α : Type} {b b' : Bindings α}
    (h : ∀ x, b'.contains x = b.contains x) : b'.names = b.names := by
  refine b'.pairwise_names.eq_of_mem_iff b.pairwise_names fun x => ?_
  rw [Bindings.mem_names, Bindings.mem_names, h x]

namespace Renaming

/-! ## Values -/

/-- The functions of two closures are the same but for what is renamed in them. -/
structure Matches (ρ : Renaming) (W : Marking) (part : Function → Part) (c c' : Closure) :
    Prop where
  identity : c'.identity = c.identity
  scope : c'.scope = c.scope
  renames : ∃ D, ρ.Renames D (part c.function) (part c'.function) ∧ W.Fits D c.scope

/-- So are the methods of two structs. -/
structure Templates (ρ : Renaming) (W : Marking) (t t' : Template) : Prop where
  identity : t'.identity = t.identity
  name : t'.name = t.name
  methods : ∀ x, Option.Rel (ρ.Matches W .method) (t.methods.get? x) (t'.methods.get? x)

/-- **Values that differ only in what is renamed in their functions.** -/
inductive Alike (ρ : Renaming) (W : Marking) : Value → Value → Prop
  | plain {v : Value} : v.IsPlain → Alike ρ W v v
  | closure {c c'} : ρ.Matches W .function c c' →
      Alike ρ W (.callable (.closure c)) (.callable (.closure c'))
  | struct {t t'} : ρ.Templates W t t' →
      Alike ρ W (.callable (.struct t)) (.callable (.struct t'))
  | object {t t' i} : ρ.Templates W t t' → Alike ρ W (.object t i) (.object t' i)

/-- What is bound to corresponding names is alike. -/
def Frame (ρ : Renaming) (W : Marking) (renamed : Bool) (b b' : Bindings Value) : Prop :=
  ∀ x, Option.Rel (ρ.Alike W) (b.get? x) (b'.get? (ρ.exchange renamed x))

/-- Errors that differ at most in the name of a variable that is not defined. -/
def Rewords (ρ : Renaming) (e e' : Error) : Prop :=
  e' = e ∨ ∃ line, e = .runtime line (.undefinedVariable ρ.old) ∧
    e' = .runtime line (.undefinedVariable ρ.new)

/-- **Two machines in the same scope, on which the same is bound to corresponding names.** -/
structure Twins (ρ : Renaming) (W : Marking) (c : Chain) (m m' : Machine) : Prop where
  size : m.frames.frames.size = W.size
  size' : m'.frames.frames.size = W.size
  root : 0 < W.size
  globals : W.renamed globalFrame = false
  frames : ∀ F, ρ.Frame W (W.renamed F) (m.frames.frame F) (m'.frames.frame F)
  objects_size : m'.objects.size = m.objects.size
  objects : ∀ i : Nat, ρ.Frame W false (m.objects[i]?.getD .empty) (m'.objects[i]?.getD .empty)
  scope : m.scope = c
  scope' : m'.scope = c
  identity : m'.nextIdentity = m.nextIdentity
  sink : m'.sink = m.sink
  distances : ∀ site, m.distances.get? site = ρ.distance site
  distances' : m'.distances = m.distances

variable {ρ : Renaming} {W V : Marking} {D E : Depth} {c : Chain} {m m' : Machine} {v v' : Value}
  {x : String}

theorem rewords_undefined {site : Nat} {n n' : Name}
    (h : ρ.Renames D (.reference site n) (.reference site n')) :
    ρ.Rewords (Frames.undefined n) (Frames.undefined n') := by
  cases h with
  | reference hf =>
    unfold referred
    have renamed : ρ.Rewords (Frames.undefined n) (Frames.undefined (ρ.rename n)) := by
      unfold rename
      split
      · next ho => exact Or.inr ⟨n.line, by rw [Frames.undefined, ho], rfl⟩
      · exact Or.inl rfl
    split
    · split
      · exact renamed
      · exact Or.inl rfl
    · exact Or.inl rfl

/-! ### More frames -/

theorem Matches.mono (h : W.Le V) {part : Function → Part} {a b : Closure}
    (hc : ρ.Matches W part a b) : ρ.Matches V part a b := by
  obtain ⟨D, hr, hf⟩ := hc.renames
  exact ⟨hc.identity, hc.scope, D, hr, hf.mono h⟩

theorem Templates.mono (h : W.Le V) {t t' : Template} (ht : ρ.Templates W t t') :
    ρ.Templates V t t' :=
  ⟨ht.identity, ht.name, fun x => rel_imp (fun _ _ hc => hc.mono h) (ht.methods x)⟩

theorem Alike.mono (h : W.Le V) (hv : ρ.Alike W v v') : ρ.Alike V v v' := by
  cases hv with
  | plain hp => exact .plain hp
  | closure hc => exact .closure (hc.mono h)
  | struct ht => exact .struct (ht.mono h)
  | object ht => exact .object (ht.mono h)

theorem Frame.mono (h : W.Le V) {b b' : Bindings Value} {r : Bool} (hb : ρ.Frame W r b b') :
    ρ.Frame V r b b' := fun x => rel_imp (fun _ _ hv => hv.mono h) (hb x)

/-! ### Bindings -/

theorem frame_empty (r : Bool) : ρ.Frame W r .empty .empty := fun x => by simp

/-- Corresponding names are bound to values that are alike. -/
theorem Frame.set {b b' : Bindings Value} {r : Bool} (hb : ρ.Frame W r b b') (hv : ρ.Alike W v v') :
    ρ.Frame W r (b.set x v) (b'.set (ρ.exchange r x) v') := by
  intro y
  rw [Bindings.get?_set, Bindings.get?_set]
  simp only [EmbeddingLike.apply_eq_iff_eq]
  split
  · exact .some hv
  · exact hb y

theorem Frame.contains {b b' : Bindings Value} {r : Bool} (hb : ρ.Frame W r b b') (x : String) :
    b'.contains (ρ.exchange r x) = b.contains x := isSome_eq_of_rel (hb x)

/-- Where nothing is renamed, the same names are bound. -/
theorem Frame.names_eq {b b' : Bindings Value} (hb : ρ.Frame W false b b') :
    b'.names = b.names := Bindings.names_eq fun x => hb.contains x

/-- The parameters of a function are bound to its arguments. -/
theorem frame_bindParams {params : List Name} (hp : ∀ p ∈ params, ρ.Fresh E p.text)
    {args args' : List Value} (ha : List.Forall₂ (ρ.Alike W) args args') :
    ρ.Frame W (E.isAt 0) (Eval.bindParams params args)
      (Eval.bindParams (params.map (ρ.declared E)) args') := by
  have bound {b b' : Bindings Value} (hb : ρ.Frame W (E.isAt 0) b b') :
      ρ.Frame W (E.isAt 0) ((params.zip args).foldl (fun b p => b.set p.1.text p.2) b)
        (((params.map (ρ.declared E)).zip args').foldl (fun b p => b.set p.1.text p.2) b') := by
    induction params generalizing args args' b b' with
    | nil => exact hb
    | cons p params ih =>
      cases ha with
      | nil => exact hb
      | cons hv ha =>
        obtain ⟨hp, hps⟩ := List.forall_mem_cons.1 hp
        refine ih hps ha ?_
        dsimp only
        rw [text_declared hp]
        exact hb.set hv
  exact bound (frame_empty _)

/-- Operations see no difference. -/
theorem Alike.resembles (h : ρ.Alike W v v') : v.Resembles v' := by
  cases h with
  | plain hp => exact .plain hp
  | struct ht => exact .callable (.struct ht.identity ht.name)
  | object ht => exact .object ht.name
  | @closure a a' hc =>
    obtain ⟨D, hr, -⟩ := hc.renames
    refine .callable (.closure hc.identity (by simp only [Function.title, hr.name_eq]) ?_)
    obtain ⟨_, ⟨title, params, body, line⟩, _⟩ := a
    obtain ⟨_, ⟨title', params', body', line'⟩, _⟩ := a'
    cases hr with
    | body => exact List.length_map _

theorem arity_eq {f f' : Callable} (h : ρ.Alike W (.callable f) (.callable f')) :
    f'.arity = f.arity := by
  cases h.resembles with
  | plain hp => exact hp.elim
  | callable hf => exact hf.arity_eq

/-- What stands for a value that is absent. -/
theorem alike_getD {a a' : Option Value} (h : Option.Rel (ρ.Alike W) a a') {u : Value}
    (hu : u.IsPlain) : ρ.Alike W (a.getD u) (a'.getD u) := by
  cases h with
  | some hv => exact hv
  | none => exact .plain hu

/-! ### Elementary steps -/

namespace Twins

variable (h : ρ.Twins W c m m')
include h

/-- The frames of twins change. -/
theorem reframe {fs fs' : Frames Value} (hV : W.Le V) (hs : fs.frames.size = V.size)
    (hs' : fs'.frames.size = V.size)
    (hf : ∀ F, ρ.Frame V (V.renamed F) (fs.frame F) (fs'.frame F)) :
    ρ.Twins V c { m with frames := fs } { m' with frames := fs' } :=
  { h with
    size := hs
    size' := hs'
    root := Nat.lt_of_lt_of_le h.root hV.size
    globals := (hV.same _ h.root).trans h.globals
    frames := hf
    objects := fun i => (h.objects i).mono hV }

theorem set {F : Nat} {x' : String} (hx : x' = ρ.exchange (W.renamed F) x)
    (hv : ρ.Alike W v v') :
    ρ.Twins W c { m with frames := m.frames.set F x v }
      { m' with frames := m'.frames.set F x' v' } := by
  refine h.reframe (.refl W) ((Agrees.size_set _ _ _ _).trans h.size)
    ((Agrees.size_set _ _ _ _).trans h.size') fun G => ?_
  rw [Frames.frame_set, Frames.frame_set, h.size, h.size', hx]
  split
  · next hG =>
    rw [hG.1]
    exact (h.frames F).set hv
  · exact h.frames G

theorem child (base : Chain) {b b' : Bindings Value} {r : Bool} (hb : ρ.Frame W r b b') :
    ρ.Twins (W.child r) c { m with frames := (m.frames.child base b).2 }
      { m' with frames := (m'.frames.child base b').2 } := by
  have grown := W.le_child r
  refine h.reframe grown ?_ ?_ fun F => ?_
  · simp [Frames.child, Marking.child, h.size]
  · simp [Frames.child, Marking.child, h.size']
  · rw [Frames.frame_child, Frames.frame_child, h.size, h.size', Marking.child]
    dsimp only
    split
    · exact hb.mono grown
    · exact (h.frames F).mono grown

theorem enter (c' : Chain) :
    ρ.Twins W c' { m with scope := c' } { m' with scope := c' } :=
  { h with scope := rfl, scope' := rfl }

/-- A name is bound in the current scope. -/
theorem define (hc : W.Fits D c) {x' : String} (hx : x' = ρ.exchange (D.isAt 0) x)
    (hv : ρ.Alike W v v') :
    ρ.Twins W c { m with frames := m.frames.define m.scope x v }
      { m' with frames := m'.frames.define m'.scope x' v' } := by
  have hs := h.scope
  have hs' := h.scope'
  cases hc with
  | nil =>
    have nowhere {n : Machine} (hn : n.scope = []) (x : String) (v : Value) :
        n.frames.define n.scope x v = n.frames := by rw [hn]; rfl
    rw [nowhere hs, nowhere hs']
    exact h
  | @cons _ _ F c _ _ hr _ =>
    have here {n : Machine} (hn : n.scope = F :: c) (x : String) (v : Value) :
        n.frames.define n.scope x v = n.frames.set F x v := by rw [hn]; rfl
    rw [here hs, here hs']
    exact h.set (hr ▸ hx) hv

theorem object : ρ.Twins W c { m with objects := m.objects.push .empty }
    { m' with objects := m'.objects.push .empty } := by
  refine { h with objects_size := ?_, objects := fun i => ?_ }
  · simp [h.objects_size]
  · have known := h.objects i
    simp only [Array.getElem?_push, h.objects_size]
    split
    · exact frame_empty _
    · exact known

theorem setField (i : Nat) (x : String) (hv : ρ.Alike W v v') :
    ρ.Twins W c { m with objects := m.objects.modify i fun b => b.set x v }
      { m' with objects := m'.objects.modify i fun b => b.set x v' } := by
  refine { h with objects_size := ?_, objects := fun j => ?_ }
  · simp [h.objects_size]
  · have known := h.objects j
    have hsize := h.objects_size
    simp only [Array.getElem?_modify]
    split
    · by_cases hj : j < m.objects.size
      · simp only [Array.getElem?_eq_getElem hj, Array.getElem?_eq_getElem (hsize ▸ hj),
          Option.map_some, Option.getD_some] at known ⊢
        exact known.set hv
      · simpa [Array.getElem?_eq_none (Nat.le_of_not_lt hj),
          Array.getElem?_eq_none (Nat.le_of_not_lt (hsize ▸ hj))] using known
    · exact known

theorem globalNames_eq : m'.globalNames = m.globalNames := by
  have hf := h.frames globalFrame
  rw [h.globals] at hf
  exact hf.names_eq

/-- **A reference finds the same frame on both machines**, and there the names correspond. -/
theorem binder {site : Nat} {n n' : Name}
    (hn : ρ.Renames D (.reference site n) (.reference site n')) (hc : W.Fits D c) :
    (∃ F, m.binder site n = .ok F ∧ m'.binder site n' = .ok F ∧
      n'.text = ρ.exchange (W.renamed F) n.text) ∨
    ∃ e e', m.binder site n = .error e ∧ m'.binder site n' = .error e' ∧ ρ.Rewords e e' := by
  have undefined := rewords_undefined hn
  have contains (F : Nat) (hF : n'.text = ρ.exchange (W.renamed F) n.text) :
      (m'.frames.frame F).contains n'.text = (m.frames.frame F).contains n.text := by
    rw [hF]
    exact (h.frames F).contains n.text
  unfold Machine.binder
  rw [h.distances', h.distances site]
  cases hs : ρ.distance site with
  | some d =>
    unfold Frames.findAt
    dsimp only
    rw [h.scope, h.scope']
    cases hF : (c : Chain)[d]? with
    | none => exact Or.inr ⟨_, _, rfl, rfl, Or.inl rfl⟩
    | some F =>
      obtain ⟨-, hr⟩ := hc.get hF
      have ht : n'.text = ρ.exchange (W.renamed F) n.text := by
        cases hn with
        | reference hf => rw [hr, text_referred hf hs]
      dsimp only
      rw [contains F ht]
      split
      · exact Or.inl ⟨F, rfl, rfl, ht⟩
      · exact Or.inr ⟨_, _, rfl, rfl, undefined⟩
  | none =>
    have ht : n' = n := by
      cases hn with
      | reference => exact referred_of_none hs
    subst ht
    have hg : n'.text = ρ.exchange (W.renamed globalFrame) n'.text := by rw [h.globals]; rfl
    unfold Frames.find globalScope
    simp only [List.find?_cons, List.find?_nil, contains globalFrame hg]
    cases (m.frames.frame globalFrame).contains n'.text with
    | true => exact Or.inl ⟨globalFrame, rfl, rfl, hg⟩
    | false => exact Or.inr ⟨_, _, rfl, rfl, Or.inl rfl⟩

end Twins

/-! ### Machines that begin to run -/

/-- What is on a machine is alike to itself. -/
theorem alike_self {n : Machine} (h : n.Owns v) :
    ρ.Alike (Marking.blank n.frames.frames.size) v v := by
  have same (part : Function → Part) (a : Closure)
      (ha : ∀ F ∈ a.scope, F < n.frames.frames.size) :
      ρ.Matches (Marking.blank n.frames.frames.size) part a a :=
    ⟨rfl, rfl, none, .refl _, Marking.fits_blank ha⟩
  have methods (t : Template)
      (ht : ∀ x a, t.methods.get? x = some a → ∀ F ∈ a.scope, F < n.frames.frames.size) :
      ρ.Templates (Marking.blank n.frames.frames.size) t t := by
    refine ⟨rfl, rfl, fun x => ?_⟩
    cases ha : t.methods.get? x with
    | none => exact .none
    | some a => exact .some (same .method a (ht x a ha))
  cases v with
  | number | string | bool | null => exact .plain trivial
  | object t i => exact .object (methods t fun x a ha F hF => h.has _ (.method ha hF))
  | callable callee =>
    cases callee with
    | closure a => exact .closure (same .function a fun F hF => h.has _ (.closure hF))
    | struct t => exact .struct (methods t fun x a ha F hF => h.has _ (.struct ha hF))
    | native => exact h.own.elim

/-- **A machine without functions of the host is its own twin.** -/
theorem twins_self {n : Machine} (h : n.Whole) {t : Distances}
    (ht : ∀ site, t.get? site = ρ.distance site) :
    ρ.Twins (Marking.blank n.frames.frames.size) n.scope (n.redirect t) (n.redirect t) := by
  have kept (cell : Cell) : ρ.Frame (Marking.blank n.frames.frames.size) false (n.contents cell)
      (n.contents cell) := fun x => by
    rw [exchange_false]
    cases hv : (n.contents cell).get? x with
    | none => exact .none
    | some v => exact .some (alike_self (h.contents cell x v hv))
  exact {
    size := rfl
    size' := rfl
    root := h.root
    globals := rfl
    frames := fun F => kept (.frame F)
    objects_size := rfl
    objects := fun i => kept (.object i)
    scope := rfl
    scope' := rfl
    identity := rfl
    sink := rfl
    distances := ht
    distances' := rfl }

end Renaming

end Scriptling
