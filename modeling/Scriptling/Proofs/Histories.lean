/-
  Histories — what a session has come to.

  * `History.Reads`: a method has been read from an instance; `History.Opens`: a call of a
    function has opened a frame for its parameters;
  * `History.Serves`: the frames of a scope are those of a call of a method that has been read
    from an instance, and of what the method has opened since;
  * `History.Runs`, `History.kind`: what may be run in a scope, and what may be called;
  * `Machine.Retains`: what running programs leaves as it is; what may be run or called once may
    be run or called ever after (`Runs.mono`, `kind_le`).
-/
import Scriptling.Proofs.Detached
import Scriptling.Proofs.Receivers

namespace Scriptling

open Eval

/-- The points that a session has come to. -/
abbrev History := Point → Prop

namespace History

/-- **A method has been read from an instance**, which is its receiver. -/
inductive Reads (H : History) : Closure → Value → Prop
  | intro {k e name m t place m₁ method bound m₂} :
      H ⟨k + 1, .expr (.get e name), m⟩ →
      evaluate k e m = some (.ok (.object t place), m₁) →
      (m₁.objects[place]?.getD .empty).get? name.text = none →
      t.methods.get? name.text = some method →
      bindMethod method (.object t place) m₁ = some (.ok (.callable (.closure bound)), m₂) →
      Reads H bound (.object t place)

/-- **A call of a function has opened a frame** for its parameters. -/
inductive Opens (H : History) : Closure → Nat → Prop
  | intro {k c args m G m₁} :
      H ⟨k + 1, .call (.closure c) args, m⟩ →
      newScope c.scope (bindParams c.function.params args) m = some (.ok (G :: c.scope), m₁) →
      Opens H c G

end History

/-! ## What is retained -/

/-- Each `this` of a method has its distance. -/
def Machine.Records (m : Machine) (f : Function) : Prop :=
  ∀ site line n, (Part.function f).Uses site line n →
    site < m.nextSite ∧ m.distances.get? site = some n

/-- What running programs leaves as it is. -/
structure Machine.Retains (m m' : Machine) : Prop where
  size : m.frames.frames.size ≤ m'.frames.frames.size
  receiver : ∀ F v, (m.frames.frame F).get? "this" = some v →
    (m'.frames.frame F).get? "this" = some v
  sites : m.nextSite ≤ m'.nextSite
  distances : ∀ site < m.nextSite, m'.distances.get? site = m.distances.get? site

/-- A frame that binds something exists. -/
theorem Frames.lt_of_get? {fs : Frames Value} {F : Nat} {x : String} {v : Value}
    (h : (fs.frame F).get? x = some v) : F < fs.frames.size := by
  by_contra hF
  unfold Frames.frame at h
  rw [Array.getElem?_eq_none (Nat.le_of_not_lt hF), Option.getD_none, Bindings.get?_empty] at h
  cases h

namespace Machine.Retains

variable {m m₁ m₂ : Machine}

/-- A step that changes neither frames nor distances. -/
theorem of_eq (hf : m₁.frames = m.frames) (hn : m₁.nextSite = m.nextSite)
    (hd : m₁.distances = m.distances) : m.Retains m₁ where
  size := Nat.le_of_eq (by rw [hf])
  receiver F v h := by rwa [hf]
  sites := Nat.le_of_eq hn.symm
  distances site _ := by rw [hd]

theorem refl (m : Machine) : m.Retains m := .of_eq rfl rfl rfl

theorem trans (h : m.Retains m₁) (h' : m₁.Retains m₂) : m.Retains m₂ where
  size := Nat.le_trans h.size h'.size
  receiver F v hv := h'.receiver F v (h.receiver F v hv)
  sites := Nat.le_trans h.sites h'.sites
  distances site hs :=
    (h'.distances site (Nat.lt_of_lt_of_le hs h.sites)).trans (h.distances site hs)

/-- A name other than `this` is bound. -/
theorem set (m : Machine) (F : Nat) {x : String} (v : Value) (hx : x ≠ "this") :
    m.Retains { m with frames := m.frames.set F x v } where
  size := Nat.le_of_eq (Agrees.size_set _ _ _ _).symm
  receiver G u hu := by
    rw [Frames.frame_set]
    split
    · rwa [Bindings.get?_set, if_neg hx.symm]
    · exact hu
  sites := Nat.le_refl _
  distances _ _ := rfl

theorem define (m : Machine) {x : String} (v : Value) (hx : x ≠ "this") :
    m.Retains { m with frames := m.frames.define m.scope x v } := by
  unfold Frames.define
  split
  · exact .refl m
  · exact .set m _ v hx

/-- There is a new frame. -/
theorem push (m : Machine) (base : Chain) (b : Bindings Value) :
    m.Retains { m with frames := (m.frames.child base b).2 } where
  size := by simp [Frames.child]
  receiver F v hv := by
    rwa [Frames.frame_child, if_neg (Nat.ne_of_lt (Frames.lt_of_get? hv))]
  sites := Nat.le_refl _
  distances _ _ := rfl

/-- Sites are given out. -/
theorem skip (m : Machine) {site : Nat} (h : m.nextSite ≤ site) :
    m.Retains { m with nextSite := site } where
  size := Nat.le_refl _
  receiver _ _ hv := hv
  sites := h
  distances _ _ := rfl

/-- A program is accepted, and its distances are recorded. -/
theorem load {program : List Stmt} {site : Nat} {ds : List (Nat × Nat)}
    (hd : Drawn m.nextSite site (Part.stmts program).sites)
    (hr : resolve m.globalNames program = .ok ds) :
    m.Retains { m with nextSite := site, distances := m.distances.recordAll ds } where
  size := Nat.le_refl _
  receiver _ _ hv := hv
  sites := hd.le
  distances s hs := Distances.agreeOff_recordAll hr m.distances s fun hmem =>
    Nat.not_le_of_lt hs (hd.bounds s hmem).1

end Machine.Retains

theorem Machine.Records.mono {m m₁ : Machine} {f : Function} (h : m.Records f)
    (hm : m.Retains m₁) : m₁.Records f := fun site line n hu => by
  obtain ⟨hs, hd⟩ := h site line n hu
  exact ⟨Nat.lt_of_lt_of_le hs hm.sites, (hm.distances site hs).trans hd⟩

/-! ## What may be run, and what may be called -/

namespace History

variable {H H' : History} {m m₁ : Machine} {scope : Chain}

/-- A function is a method that has been read from an instance, and its outermost scope still
    has the instance for `this`. -/
structure Binds (H : History) (m : Machine) (bound : Closure) (v : Value) : Prop where
  reads : H.Reads bound v
  records : m.Records bound.function
  frame : ∃ F base, bound.scope = F :: base ∧ (m.frames.frame F).get? "this" = some v

/-- **A `this` that is so many scopes further in belongs to a method that has been called.**  The
    method had been read before, as the frames are numbered in the order in which they are made. -/
inductive Serves (H : History) (m : Machine) (scope : Chain) (site line n : Nat) : Prop
  | intro {bound v inner G} : H.Binds m bound v → H.Opens bound G →
      (∀ F ∈ bound.scope.head?, F < G) → G < m.frames.frames.size →
      scope = inner ++ G :: bound.scope →
      (Part.function bound.function).Uses site line (inner.length + 1 + n) →
      Serves H m scope site line n

/-- A part may be run where each `this` in it has its receiver. -/
structure Ready (m : Machine) (p : Part) : Prop where
  spares : p.Spares
  methods : ∀ f, Relation.ReflTransGen Part.Inside (.method f) p → m.Records f

/-- **A part may be run in a scope**: each `this` in it is one of a method that has been called
    in the scope. -/
structure Runs (H : History) (m : Machine) (scope : Chain) (p : Part) : Prop
    extends Ready m p where
  uses : ∀ site line n, p.Uses site line n → H.Serves m scope site line n

/-- **What may be called**: functions that are methods bound to their receivers, or stand where
    each `this` in them has its receiver. -/
def kind (H : History) (m : Machine) : Kind where
  closure c := Ready m (.function c.function) ∧ ((∃ v, H.Binds m c v) ∨
    ∀ site line n, (Part.function c.function).Uses site line n → H.Serves m c.scope site line n)
  method c := Ready m (.method c.function)
  native _ := True

/-! ### Longer histories -/

theorem Reads.mono (hH : ∀ c, H c → H' c) {bound : Closure} {v : Value} (h : H.Reads bound v) :
    H'.Reads bound v := by
  cases h with
  | intro hc he hfield hmethod hbind => exact .intro (hH _ hc) he hfield hmethod hbind

theorem Opens.mono (hH : ∀ c, H c → H' c) {c : Closure} {G : Nat} (h : H.Opens c G) :
    H'.Opens c G := by
  cases h with
  | intro hc hnew => exact .intro (hH _ hc) hnew

theorem Binds.mono (hH : ∀ c, H c → H' c) (hm : m.Retains m₁) {bound : Closure} {v : Value}
    (h : H.Binds m bound v) : H'.Binds m₁ bound v where
  reads := h.reads.mono hH
  records := h.records.mono hm
  frame := by
    obtain ⟨F, base, hs, hv⟩ := h.frame
    exact ⟨F, base, hs, hm.receiver F v hv⟩

theorem Serves.mono (hH : ∀ c, H c → H' c) (hm : m.Retains m₁) {site line n : Nat}
    (h : H.Serves m scope site line n) : H'.Serves m₁ scope site line n := by
  cases h with
  | intro hb ho hF hG hs hu =>
    exact .intro (hb.mono hH hm) (ho.mono hH) hF (Nat.lt_of_lt_of_le hG hm.size) hs hu

theorem Ready.mono (hm : m.Retains m₁) {p : Part} (h : Ready m p) : Ready m₁ p where
  spares := h.spares
  methods f hf := (h.methods f hf).mono hm

theorem Runs.mono (hH : ∀ c, H c → H' c) (hm : m.Retains m₁) {p : Part}
    (h : H.Runs m scope p) : H'.Runs m₁ scope p where
  toReady := h.toReady.mono hm
  uses site line n hu := (h.uses site line n hu).mono hH hm

theorem kind_le (hH : ∀ c, H c → H' c) (hm : m.Retains m₁) : (H.kind m).Le (H'.kind m₁) where
  closure c hc := by
    refine ⟨hc.1.mono hm, hc.2.imp ?_ ?_⟩
    · exact fun ⟨v, hv⟩ => ⟨v, hv.mono hH hm⟩
    · exact fun hu site line n h => (hu site line n h).mono hH hm
  method c hc := Ready.mono hm hc
  native _ _ := trivial

/-! ### From parts to what stands in them -/

theorem Ready.inside {p q : Part} (h : Ready m p) (hq : q.Inside p) : Ready m q where
  spares := h.spares.inside hq
  methods f hf := h.methods f (hf.tail hq)

/-- What stands directly inside a part, and in the same scope, may be run where the part may. -/
theorem Runs.inside {p q : Part} (h : H.Runs m scope p) (hq : q.Inside p)
    (hs : p.isStruct = false) (ho : p.opens = 0) : H.Runs m scope q where
  toReady := h.toReady.inside hq
  uses site line n hu := by
    have huse := Part.Uses.inside hq hs hu
    rw [ho] at huse
    exact h.uses site line n huse

/-- What stands directly inside a part, and in a scope of its own, may be run in a new frame. -/
theorem Runs.enter {p q : Part} (h : H.Runs m scope p) (hq : q.Inside p)
    (hs : p.isStruct = false) (ho : p.opens = 1) (G : Nat) : H.Runs m (G :: scope) q where
  toReady := h.toReady.inside hq
  uses site line n hu := by
    have huse := Part.Uses.inside hq hs hu
    rw [ho] at huse
    cases h.uses site line (n + 1) huse with
    | @intro bound v inner G' hb ho hF hG hscope hu' =>
      have hscope' : G :: scope = (G :: inner) ++ G' :: bound.scope := by
        rw [hscope]
        rfl
      refine .intro hb ho hF hG hscope' ?_
      have hlen : (G :: inner).length + 1 + n = inner.length + 1 + (n + 1) := by
        simp only [List.length_cons]
        omega
      rwa [hlen]

/-- The body of a function that is called may be run in the frame that the call has opened. -/
theorem Runs.body {c : Closure} {G : Nat} (hc : (H.kind m).closure c) (ho : H.Opens c G)
    (hG : G = m.frames.frames.size) (hm : m.Retains m₁) (hsize : G < m₁.frames.frames.size) :
    H.Runs m₁ (G :: c.scope) (.stmts c.function.body) := by
  have inside : (Part.stmts c.function.body).Inside (.function c.function) := by
    cases c.function
    exact .body
  rcases hc with ⟨hready, ⟨v, hb⟩ | huses⟩
  · refine ⟨(hready.inside inside).mono hm, fun site line n hu => ?_⟩
    have hthis : ∀ F ∈ c.scope.head?, F < G := by
      obtain ⟨F, base, hs, hv⟩ := hb.frame
      rw [hs, hG]
      rintro _ ⟨⟩
      exact Frames.lt_of_get? hv
    have hscope : G :: c.scope = [] ++ G :: c.scope := rfl
    refine .intro (hb.mono (fun _ h => h) hm) ho hthis hsize hscope ?_
    rw [List.length_nil, Nat.zero_add, Nat.add_comm]
    exact .inside inside rfl hu
  · have hf : H.Runs m c.scope (.function c.function) := ⟨hready, huses⟩
    exact (hf.enter inside rfl rfl G).mono (fun _ h => h) hm

end History

end Scriptling
