/-
  Safety — computations that keep a machine in agreement with a growing world.

  * `Eval.Safe`: what is asked of a computation; it composes (`Safe.bind`);
  * `Agrees.binder`: a reference that may be run is looked up where it should be;
  * `Safe.read`, `Safe.define`, `Safe.within` and their companions: the elementary steps.
-/
import Scriptling.Proofs.Agreement

namespace Scriptling

open World

namespace Eval

variable {α β : Type} {mode : Mode} {W : World} {pending : List (Nat × String)} {scope : Chain}

/-- **A computation in a scope keeps machines in agreement with worlds that grow.**  If it
    succeeds, the world and the result are as `Q` says; if it fails, declarations may have been
    left incomplete, and the error is permitted. -/
def Safe (mode : Mode) (W : World) (pending : List (Nat × String)) (scope : Chain)
    (act : Eval α) (Q : World → α → Prop) : Prop :=
  ∀ m, m.scope = scope → Agrees mode W pending m → ∀ r m', act m = some (r, m') →
    m'.scope = scope ∧ ∃ V, Le mode W V ∧
      match r with
      | .ok a => Agrees mode V pending m' ∧ Q V a
      | .error e => mode.Permits e ∧ ∃ abandoned, Agrees mode V abandoned m'

/-! ## Composition -/

theorem Safe.pure {a : α} {Q : World → α → Prop} (hQ : Q W a) :
    Safe mode W pending scope (Pure.pure a) Q := by
  intro m hs hm r m' h
  cases h
  exact ⟨hs, W, .refl mode W, hm, hQ⟩

theorem Safe.bind {act : Eval α} {f : α → Eval β} {Q : World → α → Prop} {R : World → β → Prop}
    (h : Safe mode W pending scope act Q)
    (hf : ∀ V a, Le mode W V → Q V a → Safe mode V pending scope (f a) R) :
    Safe mode W pending scope (act >>= f) R := by
  intro m hs hm r m' hr
  rw [bind_apply] at hr
  rcases hact : act m with _ | ⟨_ | a, m₁⟩
  · rw [hact] at hr; cases hr
  · rw [hact] at hr
    cases hr
    exact h m hs hm _ _ hact
  · rw [hact] at hr
    obtain ⟨hs₁, V, hV, hm₁, hQ⟩ := h m hs hm _ _ hact
    obtain ⟨hs', U, hU, hrest⟩ := hf V a hV hQ m₁ hs₁ hm₁ r m' hr
    exact ⟨hs', U, hV.trans hU, hrest⟩

theorem Safe.mono {act : Eval α} {Q R : World → α → Prop} (h : Safe mode W pending scope act Q)
    (hQ : ∀ V a, Le mode W V → Q V a → R V a) : Safe mode W pending scope act R := by
  intro m hs hm r m' hr
  obtain ⟨hs', V, hV, hrest⟩ := h m hs hm r m' hr
  refine ⟨hs', V, hV, ?_⟩
  cases r with
  | ok a => exact ⟨hrest.1, hQ V a hV hrest.2⟩
  | error e => exact hrest

/-- What is known of all results besides. -/
theorem Safe.also {act : Eval α} {Q : World → α → Prop} {P : α → Prop}
    (h : Safe mode W pending scope act Q)
    (hP : ∀ m a m', act m = some (.ok a, m') → P a) :
    Safe mode W pending scope act fun V a => Q V a ∧ P a := by
  intro m hs hm r m' hr
  obtain ⟨hs', V, hV, hrest⟩ := h m hs hm r m' hr
  refine ⟨hs', V, hV, ?_⟩
  cases r with
  | ok a => exact ⟨hrest.1, hrest.2, hP m a m' hr⟩
  | error e => exact hrest

/-- Errors that the host catches. -/
theorem Safe.attempt (hm : mode.hosted) {act : Eval α} {f : Except Error α → Eval β}
    {Q : World → α → Prop} {R : World → β → Prop} (h : Safe mode W pending scope act Q)
    (hf : ∀ V r, Le mode W V → (∀ a, r = .ok a → Q V a) →
      (∀ e, r = .error e → mode.Permits e) → Safe mode V pending scope (f r) R) :
    Safe mode W pending scope (Eval.attempt act >>= f) R := by
  intro m hs hma r m' hr
  obtain ⟨r₁, m₁, hact, hr⟩ := attempt_bind_eq.1 hr
  obtain ⟨hs₁, V, hV, hrest⟩ := h m hs hma _ _ hact
  cases r₁ with
  | ok a =>
    obtain ⟨hs', U, hU, hrest'⟩ := hf V (.ok a) hV
      (fun _ ha => by cases ha; exact hrest.2) (fun _ he => nomatch he) m₁ hs₁ hrest.1 r m' hr
    exact ⟨hs', U, hV.trans hU, hrest'⟩
  | error e =>
    obtain ⟨hperm, abandoned, hm₁⟩ := hrest
    obtain ⟨hs', U, hU, hrest'⟩ := hf V (.error e) hV (fun _ ha => nomatch ha)
      (fun _ he => by cases he; exact hperm) m₁ hs₁ (hm₁.of_hosted hm pending) r m' hr
    exact ⟨hs', U, hV.trans hU, hrest'⟩

theorem Safe.exhausted {Q : World → α → Prop} :
    Safe mode W pending scope (Eval.exhausted : Eval α) Q := fun _ _ _ _ _ h => nomatch h

theorem Safe.throw {e : Error} {Q : World → α → Prop} (he : mode.Permits e) :
    Safe mode W pending scope (throw e : Eval α) Q := by
  intro m hs hm r m' h
  cases h
  exact ⟨hs, W, .refl mode W, he, pending, hm⟩

theorem Safe.fail {line : Nat} {fault : RuntimeFault} {Q : World → α → Prop}
    (he : mode.Permits (.runtime line fault)) :
    Safe mode W pending scope (Eval.fail line fault : Eval α) Q := .throw he

theorem Safe.ofExcept {r : Except Error α} {Q : World → α → Prop} (hok : ∀ a, r = .ok a → Q W a)
    (herr : ∀ e, r = .error e → mode.Permits e) :
    Safe mode W pending scope (Eval.ofExcept r) Q := by
  cases r with
  | ok a => exact .pure (hok a rfl)
  | error e => exact .throw (herr e rfl)

/-- What a computation learns from the machine at its start. -/
theorem Safe.get {f : Machine → Eval α} {Q : World → α → Prop}
    (h : ∀ m, m.scope = scope → Agrees mode W pending m → Safe mode W pending scope (f m) Q) :
    Safe mode W pending scope (MonadState.get >>= f) Q :=
  fun m hs hm r m' hr => h m hs hm m hs hm r m' hr

/-- A step that only changes what the world says nothing about. -/
theorem Safe.modify {f : Machine → α × Machine} {Q : World → α → Prop}
    (hscope : ∀ m, (f m).2.scope = m.scope)
    (h : ∀ m, m.scope = scope → Agrees mode W pending m →
      Agrees mode W pending (f m).2 ∧ Q W (f m).1) :
    Safe mode W pending scope (modifyGet f) Q := by
  intro m hs hm r m' hr
  cases hr
  exact ⟨(hscope m).trans hs, W, .refl mode W, h m hs hm⟩

end Eval

/-! ## Errors -/

/-- An error that has nothing to do with scopes or with control. -/
theorem Mode.permits_of_fault (mode : Mode) {line : Nat} {fault : RuntimeFault}
    (h : fault ≠ .scopeOutOfRange ∧ fault ≠ .breakOutsideLoop ∧ fault ≠ .continueOutsideLoop ∧
      fault ≠ .returnOutsideFunction) : mode.Permits (.runtime line fault) where
  inRange := by
    rintro ⟨_, he⟩
    cases he
    exact h.1 rfl
  notStray _ := by
    rintro ⟨_, _, he, hs⟩
    cases he
    rcases hs with hs | hs | hs
    · exact h.2.1 hs
    · exact h.2.2.1 hs
    · exact h.2.2.2 hs

theorem Mode.permits_output (mode : Mode) (fault : OutputFault) : mode.Permits (.output fault) where
  inRange := fun ⟨_, he⟩ => nomatch he
  notStray _ := fun ⟨_, _, he, _⟩ => nomatch he

theorem Mode.permits_static (mode : Mode) {e : Error} (h : e.isStatic = true) :
    mode.Permits e where
  inRange := by rintro ⟨_, rfl⟩; cases h
  notStray _ := by rintro ⟨_, _, rfl, _⟩; cases h

theorem Mode.permits_undefined (mode : Mode) (name : Name) :
    mode.Permits (Frames.undefined name) :=
  mode.permits_of_fault ⟨nofun, nofun, nofun, nofun⟩

/-- Operators fail only because of the types of their operands. -/
theorem Mode.permits_operand (mode : Mode) {line : Nat} {v : Value} {e : Error}
    (h : v.operand line = .error e) : mode.Permits e := by
  unfold Value.operand at h
  cases hn : v.toNumber with
  | ok n => rw [hn] at h; cases h
  | error fault =>
    rw [hn] at h
    cases h
    refine mode.permits_of_fault ?_
    unfold Value.toNumber at hn
    split at hn
    · cases hn
    · split at hn
      · cases hn
      · cases hn; exact ⟨nofun, nofun, nofun, nofun⟩
    · cases hn; exact ⟨nofun, nofun, nofun, nofun⟩

theorem UnaryOp.apply_error (mode : Mode) {op : UnaryOp} {line : Nat} {v : Value} {e : Error}
    (h : op.apply line v = .error e) : mode.Permits e := by
  cases op with
  | not => cases h
  | minus | plus =>
    rcases Except.bind_eq_error.1 h with h | ⟨_, _, h⟩
    · exact mode.permits_operand h
    · cases h

theorem UnaryOp.apply_plain {op : UnaryOp} {line : Nat} {v u : Value}
    (h : op.apply line v = .ok u) : u.IsPlain := by
  cases op with
  | not => cases h; trivial
  | minus | plus =>
    obtain ⟨_, -, h⟩ := Except.bind_eq_ok.1 h
    cases h
    trivial

theorem BinaryOp.numeric_error (mode : Mode) {f : Number → Number → Value} {line : Nat}
    {a b : Value} {e : Error} (h : BinaryOp.apply.numeric line a b f = .error e) :
    mode.Permits e := by
  unfold BinaryOp.apply.numeric at h
  rcases Except.bind_eq_error.1 h with h | ⟨_, _, h⟩
  · exact mode.permits_operand h
  · rcases Except.bind_eq_error.1 h with h | ⟨_, _, h⟩
    · exact mode.permits_operand h
    · cases h

theorem BinaryOp.numeric_ok {f : Number → Number → Value} {line : Nat} {a b u : Value}
    (h : BinaryOp.apply.numeric line a b f = .ok u) : ∃ x y, u = f x y := by
  unfold BinaryOp.apply.numeric at h
  obtain ⟨x, -, h⟩ := Except.bind_eq_ok.1 h
  obtain ⟨y, -, h⟩ := Except.bind_eq_ok.1 h
  cases h
  exact ⟨x, y, rfl⟩

theorem BinaryOp.apply_error (mode : Mode) {op : BinaryOp} {line : Nat} {a b : Value} {e : Error}
    (h : op.apply line a b = .error e) : mode.Permits e := by
  cases op with
  | equal | notEqual => cases h
  | plus =>
    have h' : a.add line b = .error e := h
    unfold Value.add at h'
    split at h'
    · cases h'
    · cases h'
    · cases h'; exact mode.permits_of_fault ⟨nofun, nofun, nofun, nofun⟩
  | _ => exact numeric_error mode h

theorem BinaryOp.apply_plain {op : BinaryOp} {line : Nat} {a b u : Value}
    (h : op.apply line a b = .ok u) : u.IsPlain := by
  cases op with
  | equal | notEqual => cases h; trivial
  | plus =>
    have h' : a.add line b = .ok u := h
    unfold Value.add at h'
    split at h' <;> cases h' <;> trivial
  | _ =>
    obtain ⟨x, y, rfl⟩ := numeric_ok h
    trivial

/-! ## References -/

theorem Pass.Visits.length_eq {p : Pass} {ds : List (Nat × Nat)} (hp : p.Accepts ds)
    {Γ : List Layer} {w : Walk} {part : Part} (h : p.Visits Γ w part) :
    w.scopes.length = Γ.length := by
  obtain ⟨w', hw'⟩ := h.passes hp
  exact hw'.before.length_eq

namespace Agrees

variable {mode : Mode} {W : World} {pending : List (Nat × String)} {m : Machine}

/-- **A distance leads to a frame of the scope.** -/
theorem distance_lt (h : Agrees mode W pending m) {site : Nat} {name : Name} {d : Nat}
    (hr : W.Runs mode m.scope (.reference site name))
    (hd : m.distances.get? site = some d) : d < m.scope.length := by
  cases hr with
  | resolved hp hv hf =>
    obtain ⟨-, ds, hds⟩ := h.proper _ hp
    rw [h.recorded _ _ _ _ _ hp hv] at hd
    obtain ⟨hlt, -⟩ := Walk.distance?_eq_some_iff.1 hd
    rw [hv.length_eq hds] at hlt
    exact Nat.lt_trans hlt hf.depth
  | raw _ _ hu =>
    rw [(h.unresolved site (hu site List.mem_cons_self)).2] at hd
    cases hd

/-- A reference is looked up in a frame that binds its name, or the name is undefined. -/
theorem binder (h : Agrees mode W pending m) {site : Nat} {name : Name}
    (hr : W.Runs mode m.scope (.reference site name)) :
    match m.binder site name with
    | .ok i => W.bound i name.text
    | .error e => e = Frames.undefined name := by
  unfold Machine.binder
  cases hd : m.distances.get? site with
  | none =>
    have hfind := Frames.find_spec m.frames globalScope name
    cases hf : m.frames.find globalScope name with
    | ok i => rw [hf] at hfind; exact (h.bound i _).2 hfind
    | error e => rw [hf] at hfind; exact hfind
  | some d =>
    have hlt := h.distance_lt hr hd
    dsimp only
    unfold Frames.findAt
    rw [List.getElem?_eq_getElem hlt]
    dsimp only
    by_cases hc : (m.frames.frame m.scope[d]).contains name.text = true
    · rw [if_pos hc]
      exact (h.bound _ _).2 hc
    · rw [if_neg hc]

end Agrees

/-! ## Elementary steps -/

namespace Eval

variable {mode : Mode} {W : World} {pending : List (Nat × String)} {scope : Chain}

theorem Safe.read {site : Nat} {name : Name} (hr : W.Runs mode scope (.reference site name)) :
    Safe mode W pending scope (Eval.read site name) fun V v => V.Allows mode v := by
  refine Safe.get fun m hs hm => ?_
  subst hs
  have hb := hm.binder hr
  refine Safe.ofExcept (fun v hv => ?_) fun e he => ?_
  · obtain ⟨i, -, hv⟩ := Except.bind_eq_ok.1 hv
    unfold Frames.value at hv
    split at hv
    · next u hu => cases hv; exact hm.frames _ _ _ hu
    · cases hv
  · rcases Except.bind_eq_error.1 he with he | ⟨i, -, he⟩
    · rw [he] at hb
      rw [hb]
      exact mode.permits_undefined name
    · unfold Frames.value at he
      split at he
      · cases he
      · cases he; exact mode.permits_undefined name

theorem Safe.write {site : Nat} {name : Name} {v : Value}
    (hr : W.Runs mode scope (.reference site name)) (hv : W.Allows mode v) :
    Safe mode W pending scope (Eval.write site name v) fun _ _ => True := by
  refine Safe.get fun m hs hm => ?_
  subst hs
  have hb := hm.binder hr
  refine Safe.bind (Q := fun V i => V.bound i name.text)
    (Safe.ofExcept (fun i hi => ?_) fun e he => ?_) fun V i hV hi => ?_
  · rw [hi] at hb
    exact hb
  · rw [he] at hb
    rw [hb]
    exact mode.permits_undefined name
  · exact Safe.modify (fun _ => rfl) fun _ _ hm => ⟨hm.assign hi (hv.mono hV.toSub), trivial⟩

theorem Safe.define {x : String} {v : Value} (hs : W.Sees scope)
    (ha : ¬ mode.hosted → W.Admits scope [x])
    (hv : ∀ F ∈ scope.head?, (W.bind F x).Allows mode v) :
    Safe mode W pending scope (Eval.define x v) fun V _ =>
      V.Binds scope [x] ∧ V.Allows mode v := by
  intro m hms hm r m' h
  obtain ⟨F, rest, rfl⟩ := List.exists_cons_of_ne_nil hs.1
  have hset : Eval.define x v m = some (.ok (), { m with frames := m.frames.set F x v }) := by
    have happly : Eval.define x v m =
        some (.ok (), { m with frames := m.frames.define m.scope x v }) := rfl
    rw [happly, hms]
    rfl
  cases hset.symm.trans h
  refine ⟨hms, W.bind F x, le_bind mode W F x, ?_, ?_, hv F rfl⟩
  · refine hm.define (hs.2 F List.mem_cons_self) (fun hh => ?_) (hv F rfl)
    obtain ⟨G, hG, hx⟩ := ha hh x List.mem_cons_self
    cases hG
    exact hx
  · intro y hy
    rw [List.mem_singleton.1 hy]
    exact ⟨F, rfl, Or.inr ⟨rfl, rfl⟩⟩

/-- What the innermost frame binds is assigned there. -/
theorem Safe.assign {name : Name} {v : Value} {Q : World → Unit → Prop}
    (hb : W.Binds scope [name.text])
    (h : Safe mode W pending scope (Eval.define name.text v) Q) :
    Safe mode W pending scope (Eval.assign name v) Q := by
  intro m hs hm
  obtain ⟨F, hF, bound⟩ := hb name.text List.mem_cons_self
  obtain ⟨base, hscope⟩ : ∃ base, m.scope = F :: base := by
    rw [hs]
    exact List.head?_eq_some_iff.1 hF
  rw [assign_eq_define hscope ((hm.bound F _).1 bound)]
  exact h m hs hm

theorem Safe.freshIdentity :
    Safe mode W pending scope Eval.freshIdentity fun _ _ => True := by
  intro m hs hm r m' h
  cases h
  exact ⟨hs, W, .refl mode W, hm.congr rfl rfl rfl rfl rfl rfl, trivial⟩

theorem Safe.print {text : String} :
    Safe mode W pending scope (Eval.print text) fun _ _ => True := by
  refine Safe.bind (Q := fun _ _ => True) (Safe.modify (fun _ => rfl) fun m hs hm => ?_)
    fun V whole _ _ => ?_
  · exact ⟨hm.congr rfl rfl rfl rfl rfl rfl, trivial⟩
  · cases whole with
    | true => exact .pure trivial
    | false => exact .throw (mode.permits_output _)

theorem Safe.flush : Safe mode W pending scope Eval.flush fun _ _ => True := by
  refine Safe.get fun m _ _ => ?_
  split
  · exact .throw (mode.permits_output _)
  · exact .pure trivial

theorem Safe.hear {event : HostEvent} (he : event.Shows (W.Allows mode) mode.Permits) :
    Safe mode W pending scope (Eval.hear event) fun _ _ => True :=
  Safe.modify (fun _ => rfl) fun _ _ hm => ⟨hm.hear he, trivial⟩

theorem Safe.tick : Safe mode W pending scope Eval.tick fun _ _ => True :=
  Safe.modify (fun _ => rfl) fun _ _ hm => ⟨hm.congr rfl rfl rfl rfl rfl rfl, trivial⟩

theorem Safe.makeClosure {f : Function} :
    Safe mode W pending scope (Eval.makeClosure f) fun _ c => c.function = f ∧ c.scope = scope := by
  refine Safe.freshIdentity.bind fun V i _ _ => Safe.get fun m hs _ => .pure ⟨rfl, hs⟩

theorem Safe.instantiate {t : Template} (ht : W.AllowsMethods mode t) :
    Safe mode W pending scope (Eval.instantiate t) fun V v => V.Allows mode v :=
  Safe.modify (fun _ => rfl) fun _ _ hm => ⟨hm.pushObject, ht⟩

theorem Safe.setField {i : Nat} {x : String} {v : Value} (hv : W.Allows mode v) :
    Safe mode W pending scope (Eval.setField i x v) fun _ _ => True :=
  Safe.modify (fun _ => rfl) fun _ _ hm => ⟨hm.setField hv, trivial⟩

/-! ## New scopes -/

theorem Safe.newScope {β : Type} {base : Chain} {names : List String} {b : Bindings Value}
    {f : Chain → Eval β} {Q : World → β → Prop} (hb : ∀ x, b.contains x = true → x ∈ names)
    (hv : ∀ x v, b.get? x = some v → W.Allows mode v)
    (hf : Safe mode (W.push names fun x => b.contains x = true) pending scope
      (f (W.size :: base)) Q) :
    Safe mode W pending scope (Eval.newScope base b >>= f) Q := by
  intro m hs hm r m' h
  have hnew : Eval.newScope base b m =
      some (.ok (W.size :: base), { m with frames := (m.frames.child base b).2 }) := by
    rw [← hm.size]
    rfl
  rw [bind_apply, hnew] at h
  obtain ⟨hs', V, hV, hrest⟩ :=
    hf { m with frames := (m.frames.child base b).2 } hs (hm.push hb hv) r m' h
  exact ⟨hs', V, (le_push mode W names _ hm.root).trans hV, hrest⟩

theorem Safe.within {α : Type} {inner : Chain} {act : Eval α} {Q : World → α → Prop}
    (h : Safe mode W pending inner act Q) :
    Safe mode W pending scope (Eval.within inner act) Q := by
  intro m hs hm r m' hr
  obtain ⟨m₁, hact, rfl⟩ := within_eq.1 hr
  have hin : Agrees mode W pending { m with scope := inner } := hm.congr rfl rfl rfl rfl rfl rfl
  obtain ⟨-, V, hV, hrest⟩ := h _ rfl hin _ _ hact
  refine ⟨hs, V, hV, ?_⟩
  cases r with
  | ok a => exact ⟨hrest.1.congr rfl rfl rfl rfl rfl rfl, hrest.2⟩
  | error e =>
    obtain ⟨he, abandoned, hm₁⟩ := hrest
    exact ⟨he, abandoned, hm₁.congr rfl rfl rfl rfl rfl rfl⟩

theorem Safe.proper {α : Type} {act : Eval α} {Q : World → α → Prop}
    (h : W.Proper → Safe mode W pending scope act Q) : Safe mode W pending scope act Q :=
  fun m hs hm => h hm.proper m hs hm

theorem Safe.bindMethod {c : Closure} {receiver : Value}
    (hc : W.Runs mode c.scope (.method c.function)) (hr : W.Allows mode receiver) :
    Safe mode W pending scope (Eval.bindMethod c receiver) fun V v => V.Allows mode v := by
  refine Safe.proper fun hW => ?_
  have hthis (x : String) : (Bindings.empty.set "this" receiver).contains x = true ↔
      x = "this" := by
    rw [Bindings.contains_set, Bindings.contains_empty]
    simp
  refine Safe.newScope (fun x hx => List.mem_singleton.2 ((hthis x).1 hx)) (fun x v hv => ?_) ?_
  · rw [Bindings.get?_set] at hv
    split at hv
    · cases hv; exact hr
    · rw [Bindings.get?_empty] at hv; cases hv
  · refine Safe.freshIdentity.bind fun V i hV _ => .pure ?_
    have runs : World.Runs mode
        (W.push ["this"] fun x => (Bindings.empty.set "this" receiver).contains x = true)
        (W.size :: c.scope) (.function c.function) := hc.receiver hW ((hthis "this").2 rfl)
    exact runs.mono hV.toSub

theorem Safe.property {t : Template} {i : Nat} {name : Name} (ht : W.AllowsMethods mode t) :
    Safe mode W pending scope (Eval.property t i name) fun V v => V.Allows mode v := by
  refine Safe.get fun m hs hm => ?_
  dsimp only
  split
  · next v hv => exact .pure (hm.objects i name.text v hv)
  · split
    · next c hc => exact Safe.bindMethod (ht _ c hc) ht
    · exact .fail (mode.permits_of_fault ⟨nofun, nofun, nofun, nofun⟩)

theorem Safe.closures : ∀ {fs : List Function} {W : World} {table : Bindings Closure},
    (∀ x c, table.get? x = some c → W.Runs mode c.scope (.method c.function)) →
    (∀ f ∈ fs, W.Runs mode scope (.method f)) →
    Safe mode W pending scope
      (fs.foldlM (fun table f => do return table.set f.title (← Eval.makeClosure f)) table)
      fun V table => ∀ x c, table.get? x = some c → V.Runs mode c.scope (.method c.function)
  | [], _, _, ht, _ => .pure ht
  | f :: fs, W, table, ht, hfs => by
    rw [List.foldlM_cons]
    refine Safe.bind (Q := fun V table => ∀ x c, table.get? x = some c →
      V.Runs mode c.scope (.method c.function)) (Safe.makeClosure.bind ?_) ?_
    · rintro V c hV ⟨rfl, rfl⟩
      refine .pure fun x d hd => ?_
      rw [Bindings.get?_set] at hd
      split at hd
      · cases hd
        exact (hfs _ List.mem_cons_self).mono hV.toSub
      · exact (ht x d hd).mono hV.toSub
    · intro V table hV ht'
      exact Safe.closures ht' fun g hg => (hfs g (List.mem_cons_of_mem _ hg)).mono hV.toSub

theorem Safe.declareStruct {name : Name} {methods : List Function}
    (h : W.Placed mode scope (.stmt (.struct name methods))) :
    Safe mode W pending scope (Eval.declareStruct name methods) fun V _ =>
      V.Binds scope [name.text] := by
  have admits {V : World} (hV : Le mode W V) : ¬ mode.hosted → V.Admits scope [name.text] :=
    (h.mono hV).admits
  refine Safe.proper fun hW => Safe.bind
    (Safe.define h.runs.sees (admits (.refl mode W)) fun _ _ => trivial) fun V _ hV hb => ?_
  refine Safe.proper fun hW => ?_
  have hms := ((h.mono hV).methods hb.1).method hW
  have none (x : String) (c : Closure) (hc : (Bindings.empty : Bindings Closure).get? x = some c) :
      V.Runs mode c.scope (.method c.function) := by
    rw [Bindings.get?_empty] at hc
    cases hc
  refine (Safe.closures none hms).bind fun U table hU ht => Safe.freshIdentity.bind
    fun X i hX _ => ?_
  have hVX := hU.trans hX
  refine Safe.assign (hb.1.mono hVX.toSub) ((Safe.define
    ((h.runs.sees.mono hV.toSub).mono hVX.toSub) (admits (hV.trans hVX))
    fun F _ => ?_).mono fun _ _ _ hb => hb.1)
  intro x c hc
  exact (ht x c hc).mono (hX.trans (le_bind mode X F name.text)).toSub

/-! ## New programs -/

/-- A program that is refused is refused before it is run. -/
theorem isStatic_resolve {globals : List String} {program : List Stmt} {e : Error}
    (h : resolve globals program = .error e) : e.isStatic = true := by
  have hr := resolve_reports globals program
  rw [h] at hr
  obtain ⟨line, fault, rfl, -⟩ := hr
  rfl

theorem strays_of_resolve {globals : List String} {program : List Stmt} {ds : List (Nat × Nat)}
    (h : resolve globals program = .ok ds) : strays program = [] := by
  have hr := resolve_reports globals program
  rw [h] at hr
  exact hr

/-- The statements of a program that has been walked over may be run. -/
theorem placed_program {p : Pass} (hp : W.passes p) (hs : W.Sees scope)
    (hg : ¬ mode.hosted → scope = globalScope ∧ W.Admits scope (Stmt.declaresAll p.program)) :
    W.Placed mode scope (.stmts p.program) where
  runs := .resolved hp .start
    { depth := List.length_pos_iff.2 hs.1
      places := hs.2
      exact := fun hm => ⟨[], (hg hm).1, .nil⟩ }
  admits hm := (hg hm).2

theorem Safe.load {source : String} (hm : mode.hosted) (hs : W.Sees scope) :
    Safe mode W pending scope (Eval.load source) fun V program =>
      V.Placed mode scope (.stmts program) ∧ strays program = [] := by
  intro m hms hma r m' h
  obtain ⟨site, hle, hcase⟩ := Eval.load_eq h
  rcases hcase with ⟨e, rfl, he, rfl⟩ | ⟨program, ds, rfl, hr, hd, -, rfl⟩
  · refine ⟨hms, W, .refl mode W, mode.permits_static ?_, pending, hma.skip hle⟩
    rcases he with he | ⟨program, he⟩
    · exact he
    · exact isStatic_resolve he
  · have grown := le_accept hm W (Pass.of m program)
    refine ⟨hms, _, grown, hma.load hd hr, ?_, strays_of_resolve hr⟩
    exact placed_program (p := Pass.of m program) (Or.inl rfl) (hs.mono grown.toSub)
      fun hh => absurd hm hh

end Eval

end Scriptling
