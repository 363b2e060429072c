/-
  Detached — running what has nothing to do with given sites.

  * `Part.Confined`: a part that has none of the sites, and declares only given names;
  * `Machine.Apart`: a machine none of whose functions has one of the sites, and whose host
    functions end without running anything;
  * `Eval.Detached`: a computation that keeps machines apart, binds no names but those in the
    current scope, and does not depend on what is recorded for the sites; this composes
    (`Detached.bind`).
-/
import Scriptling.Proofs.Contents
import Scriptling.Proofs.Nesting

namespace Scriptling

/-! ## Sites that are elsewhere -/

namespace Part

/-- A part has none of the given sites. -/
def Apart (S : Nat → Prop) (p : Part) : Prop := ∀ s ∈ p.sites, ¬ S s

/-- A part that has none of the given sites, and declares only given names. -/
structure Confined (S : Nat → Prop) (names : List String) (p : Part) : Prop where
  apart : p.Apart S
  declares : p.declares ⊆ names

variable {S : Nat → Prop} {names : List String} {p q : Part}

theorem Apart.inside (h : p.Apart S) (hq : q.Inside p) : q.Apart S := by
  intro s hs
  cases hq with
  | piece hq =>
    refine h s ((sites_pieces (List.ne_nil_of_mem hq)).subset ?_)
    exact List.mem_flatMap.2 ⟨_, hq, hs⟩
  | literal | body | receiver | value | block | loop | round | methods => exact h s hs

/-- What stands in a scope of its own declares its names there. -/
theorem Apart.confined (h : p.Apart S) : p.Confined S p.declares := ⟨h, List.Subset.refl _⟩

theorem Confined.piece (h : p.Confined S names) {assured : List String}
    (hq : (q, assured) ∈ p.pieces) : q.Confined S names where
  apart := h.apart.inside (.piece hq)
  declares := List.Subset.trans (declares_pieces _ hq) h.declares

end Part

/-! ## Hosts that only answer -/

/-- The operation runs nothing. -/
def HostOperation.Answers : HostOperation → Prop
  | .apply | .nested => False
  | _ => True

/-- A host only answers if its functions end at once; it gets functions and instances of programs
    from the machine only. -/
def Host.Answers (host : Host) : Prop :=
  ∀ P : Value → Prop, (∀ v, v.IsPlain → P v) →
    (∀ n : Native, n.operation.Answers → P (.callable (.native n))) → ∀ heard,
      (∀ event ∈ heard, event.Shows P fun _ => True) →
        ∃ outcome, host heard = .done outcome ∧ ∀ v, outcome = .ok v → P v

/-! ## Machines -/

/-- Functions that have none of the given sites, and host functions that run nothing. -/
def Kind.apart (S : Nat → Prop) : Kind where
  closure c := (Part.function c.function).Apart S
  method c := (Part.function c.function).Apart S
  native n := n.operation.Answers

/-- **A machine that has nothing to do with the given sites.** -/
structure Machine.Apart (S : Nat → Prop) (m : Machine) : Prop extends m.Holds (.apart S) where
  host : m.host.Answers

/-- A machine with other distances. -/
def Machine.redirect (m : Machine) (ds : Distances) : Machine := { m with distances := ds }

/-- The tables record the same distances, except perhaps for the given sites. -/
def Distances.AgreeOff (S : Nat → Prop) (t t' : Distances) : Prop :=
  ∀ s, ¬ S s → t'.get? s = t.get? s

/-- What a program records is of no account for other sites. -/
theorem Distances.agreeOff_recordAll {g : List String} {program : List Stmt}
    {ds : List (Nat × Nat)} (h : resolve g program = .ok ds) (t : Distances) :
    t.AgreeOff (· ∈ (Part.stmts program).sites) (t.recordAll ds) := by
  intro s hs
  obtain ⟨w, hw, hd⟩ := Except.bind_eq_ok.1 h
  cases hd
  have records := Part.resolve_records (p := .stmts program) hw
  rw [Distances.get?_recordAll, records.lookup_eq hs]
  rfl

/-- What running a confined part does to a machine. -/
structure Machine.Keeps (S : Nat → Prop) (names : List String) (m m' : Machine) : Prop where
  apart : m'.Apart S
  scope : m'.scope = m.scope
  distances : m'.distances = m.distances
  nextSite : m'.nextSite = m.nextSite
  size : m.frames.frames.size ≤ m'.frames.frames.size
  /-- Only the innermost frame of the scope binds more names. -/
  bound : ∀ F < m.frames.frames.size, ∀ x, (m'.frames.frame F).contains x = true →
    (m.frames.frame F).contains x = true ∨ m.scope.head? = some F ∧ x ∈ names

namespace Machine

variable {S : Nat → Prop} {names : List String} {m m₁ m₂ : Machine}

/-- A step that changes no frames. -/
theorem Keeps.of_apart (h : m₁.Apart S) (hf : m₁.frames = m.frames) (hs : m₁.scope = m.scope)
    (hd : m₁.distances = m.distances) (hn : m₁.nextSite = m.nextSite) : m.Keeps S names m₁ where
  apart := h
  scope := hs
  distances := hd
  nextSite := hn
  size := Nat.le_of_eq (by rw [hf])
  bound F _ x hx := Or.inl (by rwa [hf] at hx)

theorem Keeps.refl (h : m.Apart S) : m.Keeps S names m := .of_apart h rfl rfl rfl rfl

theorem Keeps.trans (h : m.Keeps S names m₁) (h' : m₁.Keeps S names m₂) : m.Keeps S names m₂ where
  apart := h'.apart
  scope := h'.scope.trans h.scope
  distances := h'.distances.trans h.distances
  nextSite := h'.nextSite.trans h.nextSite
  size := Nat.le_trans h.size h'.size
  bound F hF x hx := by
    rcases h'.bound F (Nat.lt_of_lt_of_le hF h.size) x hx with hx | ⟨hs, hx⟩
    · exact h.bound F hF x hx
    · exact Or.inr ⟨by rw [← h.scope]; exact hs, hx⟩

/-- A value is bound to a name that is bound already, or to a name that may be bound. -/
theorem Apart.set (h : m.Apart S) {F : Nat} {x : String} {v : Value} (hv : (Kind.apart S).Admits v)
    (hx : (m.frames.frame F).contains x = true ∨ m.scope.head? = some F ∧ x ∈ names) :
    m.Keeps S names { m with frames := m.frames.set F x v } where
  apart := { h.toHolds.set hv with host := h.host }
  scope := rfl
  distances := rfl
  nextSite := rfl
  size := Nat.le_of_eq (Agrees.size_set _ _ _ _).symm
  bound G hG y hy := by
    rw [Frames.frame_set] at hy
    split at hy
    · next hGF =>
      rcases (Bindings.contains_set ..).1 hy with rfl | hy
      · rw [hGF.1]; exact hx
      · exact Or.inl hy
    · exact Or.inl hy

/-- There is a new frame. -/
theorem Apart.push (h : m.Apart S) {b : Bindings Value}
    (hb : ∀ x v, b.get? x = some v → (Kind.apart S).Admits v) (base : Chain) :
    m.Keeps S names { m with frames := (m.frames.child base b).2 } where
  apart := { h.toHolds.push hb base with host := h.host }
  scope := rfl
  distances := rfl
  nextSite := rfl
  size := by simp [Frames.child]
  bound F hF x hx := Or.inl (by rwa [Frames.frame_child, if_neg (Nat.ne_of_lt hF)] at hx)

/-- What is done in a scope with a new frame is done to no frame of before. -/
theorem Keeps.leave {b : Bindings Value} {base : Chain} {inner : List String}
    (h : Keeps S inner { m with scope := m.frames.frames.size :: base,
                                frames := (m.frames.child base b).2 } m₁) :
    m.Keeps S names { m₁ with scope := m.scope } where
  apart := { h.apart with }
  scope := rfl
  distances := h.distances
  nextSite := h.nextSite
  size := Nat.le_trans (by simp [Frames.child]) h.size
  bound F hF x hx := by
    have hne : F ≠ m.frames.frames.size := Nat.ne_of_lt hF
    have hsize : (m.frames.child base b).2.frames.size = m.frames.frames.size + 1 := by
      simp [Frames.child]
    rcases h.bound F (by dsimp only; omega) x hx with hx | ⟨hs, -⟩
    · left
      simpa [Frames.frame_child, hne] using hx
    · simp only [List.head?_cons, Option.some.injEq] at hs
      exact absurd hs.symm hne

end Machine

/-! ## Computations -/

namespace Eval

variable {α β : Type} {S : Nat → Prop} {names : List String}

/-- **A computation has nothing to do with the given sites.**  It keeps a machine apart from them,
    binds only given names in the current scope, and with other distances for the sites it does
    the same. -/
def Detached (S : Nat → Prop) (names : List String) (act : Eval α) (Q : α → Prop) : Prop :=
  ∀ m, m.Apart S → ∀ r m', act m = some (r, m') →
    m.Keeps S names m' ∧ (∀ a, r = .ok a → Q a) ∧
      ∀ ds, m.distances.AgreeOff S ds → act (m.redirect ds) = some (r, m'.redirect ds)

namespace Detached

variable {act : Eval α} {Q : α → Prop}

/-! ### Composition -/

theorem pure {a : α} (ha : Q a) : Detached S names (Pure.pure a) Q := by
  intro m hm r m' h
  cases h
  exact ⟨.refl hm, fun _ h => by cases h; exact ha, fun _ _ => rfl⟩

theorem throw (e : Error) : Detached S names (throw e : Eval α) Q := by
  intro m hm r m' h
  cases h
  exact ⟨.refl hm, nofun, fun _ _ => rfl⟩

theorem fail (line : Nat) (fault : RuntimeFault) :
    Detached S names (Eval.fail line fault : Eval α) Q := .throw _

theorem ofExcept {r : Except Error α} (h : ∀ a, r = .ok a → Q a) :
    Detached S names (Eval.ofExcept r) Q := by
  cases r with
  | ok a => exact .pure (h a rfl)
  | error e => exact .throw e

theorem exhausted : Detached S names (Eval.exhausted : Eval α) Q := fun _ _ _ _ h => nomatch h

theorem bind {f : α → Eval β} {R : β → Prop} (h : Detached S names act Q)
    (hf : ∀ a, Q a → Detached S names (f a) R) : Detached S names (act >>= f) R := by
  intro m hm r m' hr
  rw [bind_apply] at hr
  rcases hact : act m with _ | ⟨_ | a, m₁⟩
  · rw [hact] at hr; cases hr
  · rw [hact] at hr
    cases hr
    obtain ⟨hk, -, hds⟩ := h m hm _ _ hact
    refine ⟨hk, nofun, fun ds hd => ?_⟩
    rw [bind_apply, hds ds hd]
  · rw [hact] at hr
    obtain ⟨hk, hQ, hds⟩ := h m hm _ _ hact
    obtain ⟨hk', hR, hds'⟩ := hf a (hQ a rfl) m₁ hk.apart r m' hr
    refine ⟨hk.trans hk', hR, fun ds hd => ?_⟩
    rw [bind_apply, hds ds hd]
    exact hds' ds (by rw [hk.distances]; exact hd)

/-- What a computation learns from the machine at its start is not a distance. -/
theorem get {f : Machine → Eval α} (hf : ∀ m ds, f (m.redirect ds) = f m)
    (h : ∀ m, m.Apart S → Detached S names (f m) Q) :
    Detached S names (MonadState.get >>= f) Q := by
  intro m hm r m' hr
  obtain ⟨hk, hQ, hds⟩ := h m hm m hm r m' hr
  refine ⟨hk, hQ, fun ds hd => ?_⟩
  have start : (MonadState.get >>= f : Eval α) (m.redirect ds) =
      f (m.redirect ds) (m.redirect ds) := rfl
  rw [start, hf]
  exact hds ds hd

/-- A single step. -/
theorem modify {f : Machine → α × Machine}
    (hf : ∀ m ds, f (m.redirect ds) = ((f m).1, (f m).2.redirect ds))
    (h : ∀ m, m.Apart S → m.Keeps S names (f m).2 ∧ Q (f m).1) :
    Detached S names (modifyGet f) Q := by
  intro m hm r m' hr
  cases hr
  refine ⟨(h m hm).1, fun _ ha => by cases ha; exact (h m hm).2, fun ds _ => ?_⟩
  have step : (modifyGet f : Eval α) (m.redirect ds) =
      some (.ok (f (m.redirect ds)).1, (f (m.redirect ds)).2) := rfl
  rw [step, hf]

theorem attempt (h : Detached S names act Q) :
    Detached S names (Eval.attempt act) fun r => ∀ a, r = .ok a → Q a := by
  intro m hm r m' hr
  unfold Eval.attempt at hr
  split at hr
  · cases hr
  · next r₁ _ hact =>
    cases hr
    obtain ⟨hk, hQ, hds⟩ := h m hm _ _ hact
    refine ⟨hk, fun _ ha => by cases ha; exact hQ, fun ds hd => ?_⟩
    unfold Eval.attempt
    rw [hds ds hd]

/-- A computation in a new scope. -/
theorem inside {base : Chain} {b : Bindings Value} {inner : List String}
    (hb : ∀ x v, b.get? x = some v → (Kind.apart S).Admits v) (h : Detached S inner act Q) :
    Detached S names (newScope base b >>= fun scope => Eval.within scope act) Q := by
  intro m hm r m' hr
  obtain ⟨m₁, hact, rfl⟩ := inside_eq.1 hr
  have hin : Machine.Apart S { m with
      scope := m.frames.frames.size :: base, frames := (m.frames.child base b).2 } :=
    { hm.toHolds.push hb base with host := hm.host }
  obtain ⟨hk, hQ, hds⟩ := h _ hin _ _ hact
  exact ⟨hk.leave, hQ, fun ds hd => inside_eq.2 ⟨_, hds ds hd, rfl⟩⟩

/-! ### Elementary steps -/

theorem freshIdentity : Detached S names Eval.freshIdentity fun _ => True :=
  .get (fun _ _ => rfl) fun _ _ => .bind (Q := fun _ => True)
    (.modify (fun _ _ => rfl) fun _ hm => ⟨.of_apart { hm with } rfl rfl rfl rfl, trivial⟩)
    fun _ _ => .pure trivial

theorem makeClosure (f : Function) :
    Detached S names (Eval.makeClosure f) fun c => c.function = f :=
  .bind .freshIdentity fun _ _ => .get (fun _ _ => rfl) fun _ _ => .pure rfl

theorem define {x : String} {v : Value} (hx : x ∈ names) (hv : (Kind.apart S).Admits v) :
    Detached S names (Eval.define x v) fun _ => True := by
  refine .modify (fun _ _ => rfl) fun m hm => ⟨?_, trivial⟩
  show m.Keeps S names { m with frames := m.frames.define m.scope x v }
  cases hs : m.scope with
  | nil => exact .of_apart { hm with } rfl hs.symm rfl rfl
  | cons i rest =>
    have kept := hm.set (F := i) hv (Or.inr ⟨by simp [hs], hx⟩)
    rw [← hs]
    simpa [Frames.define, hs] using kept

theorem print (text : String) : Detached S names (Eval.print text) fun _ => True := by
  refine .bind (Q := fun _ => True) (.modify (fun _ _ => rfl) fun m hm => ?_) fun whole _ => ?_
  · exact ⟨.of_apart { hm with } rfl rfl rfl rfl, trivial⟩
  · cases whole with
    | true => exact .pure trivial
    | false => exact .throw _

theorem flush : Detached S names Eval.flush fun _ => True := by
  refine .get (fun _ _ => rfl) fun m _ => ?_
  split
  · exact .throw _
  · exact .pure trivial

theorem tick : Detached S names Eval.tick fun _ => True :=
  .modify (fun _ _ => rfl) fun _ hm => ⟨.of_apart { hm with } rfl rfl rfl rfl, trivial⟩

theorem hear {event : HostEvent} (he : event.Shows (Kind.apart S).Admits fun _ => True) :
    Detached S names (Eval.hear event) fun _ => True :=
  .modify (fun _ _ => rfl) fun _ hm =>
    ⟨.of_apart { hm.toHolds.hear he with host := hm.host } rfl rfl rfl rfl, trivial⟩

theorem instantiate {t : Template} (ht : (Kind.apart S).AdmitsMethods t) :
    Detached S names (Eval.instantiate t) (Kind.apart S).Admits :=
  .modify (fun _ _ => rfl) fun _ hm =>
    ⟨.of_apart { hm.toHolds.pushObject with host := hm.host } rfl rfl rfl rfl, ht⟩

theorem setField {i : Nat} {x : String} {v : Value} (hv : (Kind.apart S).Admits v) :
    Detached S names (Eval.setField i x v) fun _ => True :=
  .modify (fun _ _ => rfl) fun _ hm =>
    ⟨.of_apart { hm.toHolds.setField hv with host := hm.host } rfl rfl rfl rfl, trivial⟩

theorem bindMethod {c : Closure} {receiver : Value} (hc : (Kind.apart S).method c)
    (hr : (Kind.apart S).Admits receiver) :
    Detached S names (Eval.bindMethod c receiver) (Kind.apart S).Admits :=
  .bind (Q := fun _ => True) (.modify (fun _ _ => rfl) fun _ hm =>
      ⟨hm.push (fun _ _ => Kind.admits_receiver hr) _, trivial⟩)
    fun _ _ => .bind .freshIdentity fun _ _ => .pure hc

theorem property {t : Template} {i : Nat} {name : Name} (ht : (Kind.apart S).AdmitsMethods t) :
    Detached S names (Eval.property t i name) (Kind.apart S).Admits := by
  refine .get (fun _ _ => rfl) fun m hm => ?_
  dsimp only
  split
  · next v hv => exact .pure (hm.objects i name.text v hv)
  · split
    · next c hc => exact .bindMethod (ht _ c hc) ht
    · exact .fail _ _

/-- Outside of the given sites, a reference is looked up in the same frame. -/
theorem binder_redirect {m : Machine} {ds : Distances} {site : Nat} (hs : ¬ S site)
    (hd : m.distances.AgreeOff S ds) (name : Name) :
    (m.redirect ds).binder site name = m.binder site name := by
  unfold Machine.binder Machine.redirect
  dsimp only
  rw [hd site hs]

theorem read {site : Nat} {name : Name} (hs : ¬ S site) :
    Detached S names (Eval.read site name) (Kind.apart S).Admits := by
  intro m hm r m' h
  have apply (m : Machine) : Eval.read site name m =
      some ((do m.frames.value (← m.binder site name) name), m) := by
    have start : Eval.read site name m =
        Eval.ofExcept (do m.frames.value (← m.binder site name) name) m := rfl
    rw [start]
    cases (do m.frames.value (← m.binder site name) name : Except Error Value) <;> rfl
  rw [apply] at h
  obtain ⟨hr, rfl⟩ := Prod.mk.inj (Option.some.inj h)
  refine ⟨.refl hm, fun v hv => ?_, fun ds hd => ?_⟩
  · obtain ⟨i, -, hv⟩ := Except.bind_eq_ok.1 (hr.trans hv)
    unfold Frames.value at hv
    split at hv
    · next u hu => cases hv; exact hm.frames _ _ _ hu
    · cases hv
  · rw [apply, binder_redirect hs hd, ← hr]
    rfl

theorem write {site : Nat} {name : Name} {v : Value} (hs : ¬ S site)
    (hv : (Kind.apart S).Admits v) :
    Detached S names (Eval.write site name v) fun _ => True := by
  intro m hm r m' h
  have start (m : Machine) : Eval.write site name v m =
      (Eval.ofExcept (m.binder site name) >>= fun i => MonadState.modifyGet fun m : Machine =>
        ((), { m with frames := m.frames.set i name.text v }) : Eval Unit) m := rfl
  rw [start] at h
  refine ⟨?_, fun _ _ => trivial, fun ds hd => ?_⟩
  · cases hb : m.binder site name with
    | error e => rw [hb] at h; cases h; exact .refl hm
    | ok i =>
      rw [hb] at h
      cases h
      exact hm.set hv (Or.inl (Machine.binder_bound hb))
  · rw [start, binder_redirect hs hd]
    cases hb : m.binder site name with
    | error e => rw [hb] at h; cases h; rfl
    | ok i => rw [hb] at h; cases h; rfl

/-- By name alone, a name is looked up without distances. -/
theorem assign {name : Name} {v : Value} (hv : (Kind.apart S).Admits v) :
    Detached S names (Eval.assign name v) fun _ => True := by
  intro m hm r m' h
  have same (ds : Distances) : (m.redirect ds).frames.find (m.redirect ds).scope name =
      m.frames.find m.scope name := rfl
  have found := m.frames.find_spec m.scope name
  rw [assign_apply] at h
  split at h
  · next i hi =>
    rw [hi] at found
    cases h
    exact ⟨hm.set hv (Or.inl found), fun _ _ => trivial, fun ds _ => by
      rw [assign_apply, same, hi]; rfl⟩
  · next e he =>
    cases h
    exact ⟨.refl hm, fun _ _ => trivial, fun ds _ => by rw [assign_apply, same, he]⟩

end Detached

end Eval

end Scriptling
