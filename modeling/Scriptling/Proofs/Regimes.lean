/-
  Regimes — what holds of all that a running program comes by.

  * `Regime`: what is asked of machines, and of the values, the scopes and the errors that come up
    on them;
  * `Regime.Stable`: the elementary steps keep a regime;
  * `Eval.Under`: a computation keeps a machine under a regime, and its result is what is asked
    for; this composes (`Under.bind`);
  * `Eval.ruled`: all of the evaluation keeps a stable regime.
-/
import Scriptling.Proofs.Contents

namespace Scriptling

/-! ## Errors of steps -/

/-- The error is of a step that a running program cannot take. -/
def Error.IsRuntime (e : Error) : Prop := ∃ line fault, e = .runtime line fault

theorem Value.operand_runtime {v : Value} {line : Nat} {e : Error}
    (h : v.operand line = .error e) : e.IsRuntime := by
  unfold Value.operand at h
  cases hn : v.toNumber with
  | ok n => rw [hn] at h; cases h
  | error fault => rw [hn] at h; cases h; exact ⟨line, fault, rfl⟩

theorem UnaryOp.apply_runtime {op : UnaryOp} {line : Nat} {v : Value} {e : Error}
    (h : op.apply line v = .error e) : e.IsRuntime := by
  cases op with
  | not => cases h
  | minus | plus =>
    rcases Except.bind_eq_error.1 h with h | ⟨_, _, h⟩
    · exact Value.operand_runtime h
    · cases h

theorem BinaryOp.apply_runtime {op : BinaryOp} {line : Nat} {a b : Value} {e : Error}
    (h : op.apply line a b = .error e) : e.IsRuntime := by
  have numeric {f : Number → Number → Value} (h : apply.numeric line a b f = .error e) :
      e.IsRuntime := by
    unfold apply.numeric at h
    rcases Except.bind_eq_error.1 h with h | ⟨_, _, h⟩
    · exact Value.operand_runtime h
    · rcases Except.bind_eq_error.1 h with h | ⟨_, _, h⟩
      · exact Value.operand_runtime h
      · cases h
  cases op with
  | equal | notEqual => cases h
  | plus =>
    have h' : a.add line b = .error e := h
    unfold Value.add at h'
    split at h'
    · cases h'
    · cases h'
    · cases h'; exact ⟨line, _, rfl⟩
  | _ => exact numeric h

theorem Frames.value_runtime {fs : Frames Value} {F : Nat} {name : Name} {e : Error}
    (h : fs.value F name = .error e) : e.IsRuntime := by
  unfold Frames.value at h
  split at h
  · cases h
  · cases h; exact ⟨_, _, rfl⟩

theorem Frames.find_runtime {fs : Frames Value} {scope : Chain} {name : Name} {e : Error}
    (h : fs.find scope name = .error e) : e.IsRuntime := by
  have found := fs.find_spec scope name
  rw [h] at found
  rw [found]
  exact ⟨_, _, rfl⟩

theorem Frames.find_mem {fs : Frames Value} {scope : Chain} {name : Name} {F : Nat}
    (h : fs.find scope name = .ok F) : F ∈ scope := by
  unfold Frames.find at h
  split at h
  · next i hi => cases h; exact List.mem_of_find?_eq_some hi
  · cases h

namespace Machine

variable {m : Machine} {site : Nat} {name : Name}

theorem binder_runtime {e : Error} (h : m.binder site name = .error e) : e.IsRuntime := by
  unfold binder at h
  split at h
  · unfold Frames.findAt at h
    split at h
    · cases h; exact ⟨_, _, rfl⟩
    · split at h
      · cases h
      · cases h; exact ⟨_, _, rfl⟩
  · exact Frames.find_runtime h

/-- A reference is looked up in a frame of the scope, or among the globals. -/
theorem binder_mem {F : Nat} (h : m.binder site name = .ok F) :
    F ∈ m.scope ∨ F = globalFrame := by
  unfold binder at h
  split at h
  · unfold Frames.findAt at h
    split at h
    · cases h
    · next i hi =>
      split at h
      · cases h; exact Or.inl (List.mem_of_getElem? hi)
      · cases h
  · exact Or.inr (List.mem_singleton.1 (Frames.find_mem h))

/-- No frame and no instance is lost. -/
structure Grown (m m' : Machine) : Prop where
  frames : m.frames.frames.size ≤ m'.frames.frames.size
  objects : m.objects.size ≤ m'.objects.size

theorem Grown.refl (m : Machine) : m.Grown m := ⟨Nat.le_refl _, Nat.le_refl _⟩

theorem Grown.trans {a b c : Machine} (h : a.Grown b) (h' : b.Grown c) : a.Grown c :=
  ⟨Nat.le_trans h.frames h'.frames, Nat.le_trans h.objects h'.objects⟩

theorem Grown.of_eq {m m' : Machine} (hf : m'.frames = m.frames) (ho : m'.objects = m.objects) :
    m.Grown m' := ⟨Nat.le_of_eq (by rw [hf]), Nat.le_of_eq (by rw [ho])⟩

theorem grown_set (m : Machine) (F : Nat) (x : String) (v : Value) :
    m.Grown { m with frames := m.frames.set F x v } :=
  ⟨Nat.le_of_eq (Agrees.size_set _ _ _ _).symm, Nat.le_refl _⟩

theorem grown_child (m : Machine) (base : Chain) (b : Bindings Value) :
    m.Grown { m with frames := (m.frames.child base b).2 } :=
  ⟨by simp [Frames.child], Nat.le_refl _⟩

theorem grown_object (m : Machine) : m.Grown { m with objects := m.objects.push .empty } :=
  ⟨Nat.le_refl _, by simp⟩

theorem grown_setField (m : Machine) (i : Nat) (x : String) (v : Value) :
    m.Grown { m with objects := m.objects.modify i fun b => b.set x v } :=
  ⟨Nat.le_refl _, by simp⟩

end Machine

/-! ## Regimes -/

/-- What is asked of machines, and of all that comes up on them. -/
structure Regime where
  machine : Machine → Prop
  value : Machine → Value → Prop
  /-- The scopes that functions are made in. -/
  scope : Machine → Chain → Prop
  error : Error → Prop
  /-- There may be functions of the host. -/
  hosted : Prop

namespace Regime

/-- **The elementary steps keep a regime.** -/
structure Stable (P : Regime) : Prop where
  value_mono : ∀ {m m' : Machine} {v}, m.Grown m' → P.value m v → P.value m' v
  scope_mono : ∀ {m m' : Machine} {c}, m.Grown m' → P.scope m c → P.scope m' c
  plain : ∀ {m v}, v.IsPlain → P.value m v
  closure : ∀ {m c}, P.value m (.callable (.closure c)) ↔ P.scope m c.scope
  template : ∀ {m t}, P.value m (.callable (.struct t)) ↔
    ∀ x c, t.methods.get? x = some c → P.scope m c.scope
  native : ∀ {m n}, P.value m (.callable (.native n)) → P.hosted ∧ n.operation ≠ .nested
  runtime : ∀ {e}, e.IsRuntime → P.error e
  output : ∀ fault, P.error (.output fault)
  /-- Machines that differ in identities, sites, distances, output or time. -/
  other : ∀ {m m' : Machine}, P.machine m → m'.frames = m.frames → m'.scope = m.scope →
    m'.objects = m.objects → m'.host = m.host → m'.heard = m.heard → P.machine m'
  current : ∀ {m}, P.machine m → P.scope m m.scope
  enter : ∀ {m : Machine} {base b}, P.machine m → P.scope m base →
    (∀ x v, b.get? x = some v → P.value m v) →
    P.machine { m with scope := m.frames.frames.size :: base, frames := (m.frames.child base b).2 }
  leave : ∀ {m m' : Machine}, P.machine m → m.Grown m' → P.machine m' →
    P.machine { m' with scope := m.scope }
  read : ∀ {m : Machine} {F x v}, P.machine m → F ∈ m.scope ∨ F = globalFrame →
    (m.frames.frame F).get? x = some v → P.value m v
  set : ∀ {m : Machine} {F x v}, P.machine m → F ∈ m.scope ∨ F = globalFrame → P.value m v →
    P.machine { m with frames := m.frames.set F x v }
  object : ∀ {m : Machine} {t}, P.machine m → P.value m (.callable (.struct t)) →
    P.machine { m with objects := m.objects.push .empty } ∧
    P.value { m with objects := m.objects.push .empty } (.object t m.objects.size)
  field : ∀ {m : Machine} {t i x v}, P.machine m → P.value m (.object t i) →
    (m.objects[i]?.getD .empty).get? x = some v → P.value m v
  setField : ∀ {m : Machine} {t i x v}, P.machine m → P.value m (.object t i) → P.value m v →
    P.machine { m with objects := m.objects.modify i fun b => b.set x v }
  method : ∀ {m t i x c}, P.value m (.object t i) → t.methods.get? x = some c → P.scope m c.scope
  hear : ∀ {m : Machine} {event}, P.hosted → P.machine m → event.Shows (P.value m) P.error →
    P.machine (m.hear event)
  host : ∀ {m : Machine}, P.hosted → P.machine m →
    (m.host m.heard).Uses (P.value m) P.error ∧ ∀ source, m.host m.heard ≠ .run source

/-- How a statement has completed. -/
def completion (P : Regime) (m : Machine) : Completion → Prop
  | .returned v => P.value m v
  | .normal | .broken _ | .continued _ => True

theorem Stable.completion_mono {P : Regime} (hP : P.Stable) {m m' : Machine} {c : Completion}
    (hg : m.Grown m') (hc : P.completion m c) : P.completion m' c := by
  cases c with
  | returned v => exact hP.value_mono hg hc
  | normal | broken | continued => trivial

end Regime

/-! ## Computations -/

namespace Eval

variable {α β : Type} {P : Regime} {m m₁ : Machine}

/-- **A computation keeps a machine under a regime**, and its result is what is asked for. -/
def Under (P : Regime) (m : Machine) (act : Eval α) (Q : Machine → α → Prop) : Prop :=
  ∀ r m', act m = some (r, m') → m.Grown m' ∧ P.machine m' ∧ (∀ a, r = .ok a → Q m' a) ∧
    ∀ e, r = .error e → P.error e

namespace Under

variable {act : Eval α} {Q : Machine → α → Prop}

/-! ### Composition -/

/-- A computation whose outcome is known. -/
theorem of_ok {a : α} (h : act m = some (.ok a, m₁)) (hg : m.Grown m₁) (hm : P.machine m₁)
    (ha : Q m₁ a) : Under P m act Q := by
  intro r m' hr
  cases h.symm.trans hr
  exact ⟨hg, hm, fun _ h => by cases h; exact ha, nofun⟩

theorem pure (hm : P.machine m) {a : α} (ha : Q m a) : Under P m (Pure.pure a) Q :=
  .of_ok rfl (.refl m) hm ha

theorem throw (hm : P.machine m) {e : Error} (he : P.error e) : Under P m (throw e : Eval α) Q := by
  intro r m' hr
  cases hr
  exact ⟨.refl m, hm, nofun, fun _ h => by cases h; exact he⟩

theorem fail (hP : P.Stable) (hm : P.machine m) {line : Nat} {fault : RuntimeFault} :
    Under P m (Eval.fail line fault : Eval α) Q := .throw hm (hP.runtime ⟨line, fault, rfl⟩)

theorem ofExcept (hm : P.machine m) {r : Except Error α} (hr : ∀ a, r = .ok a → Q m a)
    (he : ∀ e, r = .error e → P.error e) : Under P m (Eval.ofExcept r) Q := by
  cases r with
  | ok a => exact .pure hm (hr a rfl)
  | error e => exact .throw hm (he e rfl)

theorem exhausted : Under P m (Eval.exhausted : Eval α) Q := fun _ _ hr => nomatch hr

theorem bind {f : α → Eval β} {R : Machine → β → Prop} (h : Under P m act Q)
    (hf : ∀ {m₁} a, m.Grown m₁ → P.machine m₁ → Q m₁ a → Under P m₁ (f a) R) :
    Under P m (act >>= f) R := by
  intro r m' hr
  rw [bind_apply] at hr
  rcases hact : act m with _ | ⟨e | a, m₁⟩
  · rw [hact] at hr; cases hr
  · rw [hact] at hr
    cases hr
    obtain ⟨hg, hm, -, he⟩ := h _ _ hact
    exact ⟨hg, hm, nofun, fun _ h => by cases h; exact he _ rfl⟩
  · rw [hact] at hr
    obtain ⟨hg, hm, hQ, -⟩ := h _ _ hact
    obtain ⟨hg', hm', hR, he⟩ := hf a hg hm (hQ a rfl) r m' hr
    exact ⟨hg.trans hg', hm', hR, he⟩

/-- What a computation learns from the machine at its start. -/
theorem get {f : Machine → Eval α} (h : Under P m (f m) Q) :
    Under P m (MonadState.get >>= f) Q := h

theorem attempt (h : Under P m act Q) : Under P m (Eval.attempt act) fun m r =>
    (∀ a, r = .ok a → Q m a) ∧ ∀ e, r = .error e → P.error e := by
  intro r m' hr
  unfold Eval.attempt at hr
  split at hr
  · cases hr
  · next r₁ _ hact =>
    cases hr
    obtain ⟨hg, hm, hrest⟩ := h _ _ hact
    exact ⟨hg, hm, fun _ he => by cases he; exact hrest, nofun⟩

variable (hP : P.Stable)
include hP

/-- Statements in a new scope. -/
theorem inside {act : Eval Completion} (hm : P.machine m) {base : Chain} {b : Bindings Value}
    (hbase : P.scope m base) (hb : ∀ x v, b.get? x = some v → P.value m v)
    (h : ∀ {m₁}, P.machine m₁ → Under P m₁ act P.completion) :
    Under P m (newScope base b >>= fun scope => Eval.within scope act) P.completion := by
  intro r m' hr
  obtain ⟨m₁, hact, rfl⟩ := inside_eq.1 hr
  obtain ⟨hg, hm₁, hres, he⟩ := h (hP.enter hm hbase hb) _ _ hact
  have hback : m₁.Grown { m₁ with scope := m.scope } := .of_eq rfl rfl
  have hg₁ : m.Grown m₁ := ⟨Nat.le_trans (m.grown_child base b).frames hg.frames, hg.objects⟩
  exact ⟨hg₁.trans hback, hP.leave hm hg₁ hm₁,
    fun a ha => hP.completion_mono hback (hres a ha), he⟩

/-! ### Elementary steps -/

theorem freshIdentity (hm : P.machine m) : Under P m Eval.freshIdentity fun _ _ => True :=
  .of_ok rfl (.of_eq rfl rfl) (hP.other hm rfl rfl rfl rfl rfl) trivial

theorem makeClosure (hm : P.machine m) (f : Function) :
    Under P m (Eval.makeClosure f) fun m c => P.scope m c.scope :=
  (freshIdentity hP hm).bind fun _ _ hm _ => .of_ok rfl (.refl _) hm (hP.current hm)

theorem define (hm : P.machine m) (x : String) {v : Value} (hv : P.value m v) :
    Under P m (Eval.define x v) fun _ _ => True := by
  have defined : m.Grown { m with frames := m.frames.define m.scope x v } ∧
      P.machine { m with frames := m.frames.define m.scope x v } := by
    cases hs : m.scope with
    | nil => exact ⟨.of_eq rfl rfl, hP.other hm rfl hs.symm rfl rfl rfl⟩
    | cons F rest =>
      have hset := hP.set (F := F) (x := x) hm (Or.inl (hs ▸ List.mem_cons_self)) hv
      rw [← hs]
      simpa [Frames.define, hs] using And.intro (m.grown_set F x v) hset
  exact .of_ok rfl defined.1 defined.2 trivial

theorem read (hm : P.machine m) (site : Nat) (name : Name) :
    Under P m (Eval.read site name) P.value := by
  refine .get (.ofExcept hm (fun v hv => ?_) fun e he => ?_)
  · obtain ⟨F, hF, hv⟩ := Except.bind_eq_ok.1 hv
    unfold Frames.value at hv
    split at hv
    · next u hu => cases hv; exact hP.read hm (Machine.binder_mem hF) hu
    · cases hv
  · rcases Except.bind_eq_error.1 he with he | ⟨F, -, he⟩
    · exact hP.runtime (Machine.binder_runtime he)
    · exact hP.runtime (Frames.value_runtime he)

theorem write (hm : P.machine m) (site : Nat) (name : Name) {v : Value} (hv : P.value m v) :
    Under P m (Eval.write site name v) fun _ _ => True := by
  have found : Under P m (Eval.ofExcept (m.binder site name)) fun m F =>
      F ∈ m.scope ∨ F = globalFrame :=
    .ofExcept hm (fun F hF => Machine.binder_mem hF) fun e he =>
      hP.runtime (Machine.binder_runtime he)
  exact .get (found.bind fun {m₁} F hg hm₁ hF =>
    .of_ok rfl (m₁.grown_set F name.text v) (hP.set hm₁ hF (hP.value_mono hg hv)) trivial)

theorem assign (hm : P.machine m) (name : Name) {v : Value} (hv : P.value m v) :
    Under P m (Eval.assign name v) fun _ _ => True := by
  have found : Under P m (Eval.ofExcept (m.frames.find m.scope name)) fun m F => F ∈ m.scope :=
    .ofExcept hm (fun F hF => Frames.find_mem hF) fun e he => hP.runtime (Frames.find_runtime he)
  exact .get (found.bind fun {m₁} F hg hm₁ hF =>
    .of_ok rfl (m₁.grown_set F name.text v) (hP.set hm₁ (Or.inl hF) (hP.value_mono hg hv)) trivial)

theorem print (hm : P.machine m) (text : String) :
    Under P m (Eval.print text) fun _ _ => True := by
  have written : P.machine { m with sink := (m.sink.write (text ++ "\n")).1 } :=
    hP.other hm rfl rfl rfl rfl rfl
  refine .bind (Q := fun _ _ => True) (.of_ok rfl (.of_eq rfl rfl) written trivial) ?_
  intro m₁ whole _ hm _
  cases whole with
  | true => exact .pure hm trivial
  | false => exact .throw hm (hP.output _)

theorem flush (hm : P.machine m) : Under P m Eval.flush fun _ _ => True := by
  refine .get ?_
  split
  · exact .throw hm (hP.output _)
  · exact .pure hm trivial

theorem instantiate (hm : P.machine m) {t : Template} (ht : P.value m (.callable (.struct t))) :
    Under P m (Eval.instantiate t) P.value :=
  .of_ok rfl m.grown_object (hP.object hm ht).1 (hP.object hm ht).2

theorem setField (hm : P.machine m) {t : Template} {i : Nat} (ho : P.value m (.object t i))
    (x : String) {v : Value} (hv : P.value m v) :
    Under P m (Eval.setField i x v) fun _ _ => True :=
  .of_ok rfl (m.grown_setField i x v) (hP.setField hm ho hv) trivial

theorem newScope (hm : P.machine m) {base : Chain} {b : Bindings Value} (hbase : P.scope m base)
    (hb : ∀ x v, b.get? x = some v → P.value m v) :
    Under P m (Eval.newScope base b) P.scope := by
  have hgrown := m.grown_child base b
  let inner : Machine :=
    { m with scope := m.frames.frames.size :: base, frames := (m.frames.child base b).2 }
  have entered : P.machine inner := hP.enter hm hbase hb
  have left := hP.leave hm (⟨hgrown.frames, hgrown.objects⟩ : m.Grown inner) entered
  exact .of_ok rfl hgrown left (hP.scope_mono (m := inner) (.of_eq rfl rfl) (hP.current entered))

theorem bindMethod (hm : P.machine m) {c : Closure} {receiver : Value} (hc : P.scope m c.scope)
    (hr : P.value m receiver) : Under P m (Eval.bindMethod c receiver) P.value := by
  have bound (x : String) (v : Value)
      (hv : (Bindings.empty.set "this" receiver).get? x = some v) : P.value m v := by
    rw [Bindings.get?_set] at hv
    split at hv
    · cases hv; exact hr
    · rw [Bindings.get?_empty] at hv; cases hv
  exact (newScope hP hm hc bound).bind fun scope _ hm hs =>
    (freshIdentity hP hm).bind fun i hg hm _ => .pure hm (hP.closure.2 (hP.scope_mono hg hs))

theorem property (hm : P.machine m) {t : Template} {i : Nat} (ho : P.value m (.object t i))
    (name : Name) : Under P m (Eval.property t i name) P.value := by
  refine .get ?_
  dsimp only
  split
  · next v hv => exact .pure hm (hP.field hm ho hv)
  · split
    · next c hc => exact .bindMethod hP hm (hP.method ho hc) ho
    · exact .fail hP hm

theorem closures {fs : List Function} {table : Bindings Closure} (hm : P.machine m)
    (ht : ∀ x c, table.get? x = some c → P.scope m c.scope) :
    Under P m (fs.foldlM (fun table f => do return table.set f.title (← Eval.makeClosure f)) table)
      fun m table => ∀ x c, table.get? x = some c → P.scope m c.scope := by
  induction fs generalizing m table with
  | nil => exact .pure hm ht
  | cons f fs ih =>
    rw [List.foldlM_cons]
    refine .bind (.bind (makeClosure hP hm f) fun {m₁} c hg hm₁ hc => .pure hm₁ ?_)
      fun table _ hm ht => ih hm ht
    intro x d hd
    rw [Bindings.get?_set] at hd
    split at hd
    · cases hd; exact hc
    · exact hP.scope_mono hg (ht x d hd)

theorem declareStruct (hm : P.machine m) (name : Name) (methods : List Function) :
    Under P m (Eval.declareStruct name methods) fun _ _ => True := by
  have none {m₁ : Machine} (x : String) (c : Closure)
      (hc : (Bindings.empty : Bindings Closure).get? x = some c) : P.scope m₁ c.scope := by
    simp at hc
  exact (define hP hm _ (hP.plain (v := .null) trivial)).bind fun _ _ hm _ =>
    (closures hP hm none).bind fun table _ hm ht =>
      (freshIdentity hP hm).bind fun i hg hm _ =>
        assign hP hm _ (hP.template.2 fun x c hc => hP.scope_mono hg (ht x c hc))

theorem hear (hh : P.hosted) (hm : P.machine m) {event : HostEvent}
    (he : event.Shows (P.value m) P.error) : Under P m (Eval.hear event) fun _ _ => True :=
  .of_ok rfl (.of_eq rfl rfl) (hP.hear hh hm he) trivial

end Under

/-! ## The evaluation -/

/-- What is known of everything that is run with some fuel. -/
structure Ruled (P : Regime) (k : Nat) : Prop where
  evaluate {m : Machine} : P.machine m → ∀ e, Under P m (Eval.evaluate k e) P.value
  evaluateAll {m : Machine} : P.machine m → ∀ es,
    Under P m (Eval.evaluateAll k es) fun m vs => ∀ v ∈ vs, P.value m v
  evaluateOpt {m : Machine} : P.machine m → ∀ e,
    Under P m (Eval.evaluateOpt k e) fun m v => P.value m (v.getD .null)
  call {m : Machine} : P.machine m → ∀ {c args}, P.value m (.callable c) → (∀ v ∈ args, P.value m v) →
    Under P m (Eval.call k c args) P.value
  callHost {m : Machine} : P.hosted → P.machine m → ∀ {op args}, op ≠ .nested → (∀ v ∈ args, P.value m v) →
    Under P m (Eval.callHost k op args) P.value
  converse {m : Machine} : P.hosted → P.machine m → Under P m (Eval.converse k) P.value
  execute {m : Machine} : P.machine m → ∀ s, Under P m (Eval.execute k s) P.completion
  executeAll {m : Machine} : P.machine m → ∀ ss, Under P m (Eval.executeAll k ss) P.completion
  loop {m : Machine} : P.machine m → ∀ condition step body,
    Under P m (Eval.loop k condition step body) P.completion
  interpret {m : Machine} : P.machine m → ∀ ss, Under P m (Eval.interpret k ss) fun _ _ => True

theorem ruled_zero (P : Regime) : Ruled P 0 where
  evaluate _ _ := .exhausted
  evaluateAll _ _ := .exhausted
  evaluateOpt _ _ := .exhausted
  call _ _ _ _ _ := .exhausted
  callHost _ _ _ _ _ _ := .exhausted
  converse _ _ := .exhausted
  execute _ _ := .exhausted
  executeAll _ _ := .exhausted
  loop _ _ _ _ := .exhausted
  interpret _ _ := .exhausted

namespace Ruled

variable {P : Regime} (hP : P.Stable) {k : Nat} {m : Machine} (ih : Ruled P k)
include hP ih

theorem evaluate_succ (hm : P.machine m) (e : Expr) :
    Under P m (Eval.evaluate (k + 1) e) P.value := by
  unfold Eval.evaluate
  cases e with
  | literal value => exact .pure hm (hP.plain (Value.isPlain_ofLiteral value))
  | group e => exact ih.evaluate hm e
  | unary op line e =>
    exact (ih.evaluate hm e).bind fun v _ hm _ =>
      .ofExcept hm (fun u hu => hP.plain (UnaryOp.apply_plain hu)) fun _ he =>
        hP.runtime (UnaryOp.apply_runtime he)
  | binary op line l r =>
    exact (ih.evaluate hm l).bind fun a _ hm _ => (ih.evaluate hm r).bind fun b _ hm _ =>
      .ofExcept hm (fun u hu => hP.plain (BinaryOp.apply_plain hu)) fun _ he =>
        hP.runtime (BinaryOp.apply_runtime he)
  | logical op l r =>
    refine (ih.evaluate hm l).bind fun a _ hm ha => ?_
    split
    · exact .pure hm ha
    · exact ih.evaluate hm r
  | ternary c y n =>
    refine (ih.evaluate hm c).bind fun v _ hm _ => ?_
    split
    · exact ih.evaluate hm y
    · exact ih.evaluate hm n
  | «variable» site name => exact .read hP hm site name
  | this site line => exact .read hP hm site _
  | assign site name value =>
    exact (ih.evaluate hm value).bind fun v _ hm hv => (Under.write hP hm site name hv).bind
      fun _ hg hm _ => .pure hm (hP.value_mono hg hv)
  | call callee line arguments =>
    refine (ih.evaluate hm callee).bind fun f _ hm hf => (ih.evaluateAll hm arguments).bind
      fun args hg hm hargs => ?_
    split
    · split
      · exact ih.call hm (hP.value_mono hg hf) hargs
      · exact .fail hP hm
    · exact .fail hP hm
  | get object name =>
    refine (ih.evaluate hm object).bind fun o _ hm ho => ?_
    split
    · exact .property hP hm ho name
    · exact .fail hP hm
  | set object name value =>
    refine (ih.evaluate hm object).bind fun o _ hm ho => ?_
    split
    · exact (ih.evaluate hm value).bind fun v hg hm hv =>
        (Under.setField hP hm (hP.value_mono hg ho) name.text hv).bind fun _ hg hm _ =>
          .pure hm (hP.value_mono hg hv)
    · exact .fail hP hm
  | function f =>
    refine (Under.makeClosure hP hm f).bind fun c _ hm hc => ?_
    dsimp only
    split
    · exact (Under.define hP hm _ (hP.closure.2 hc)).bind fun _ hg hm _ =>
        .pure hm (hP.value_mono hg (hP.closure.2 hc))
    · exact .pure hm (hP.closure.2 hc)

theorem evaluateAll_succ (hm : P.machine m) (es : List Expr) :
    Under P m (Eval.evaluateAll (k + 1) es) fun m vs => ∀ v ∈ vs, P.value m v := by
  cases es with
  | nil => exact .pure hm (List.forall_mem_nil _)
  | cons e es =>
    exact (ih.evaluate hm e).bind fun v _ hm hv => (ih.evaluateAll hm es).bind
      fun vs hg hm hvs => .pure hm (List.forall_mem_cons.2 ⟨hP.value_mono hg hv, hvs⟩)

theorem evaluateOpt_succ (hm : P.machine m) (e : Option Expr) :
    Under P m (Eval.evaluateOpt (k + 1) e) fun m v => P.value m (v.getD .null) := by
  cases e with
  | none => exact .pure hm (hP.plain (v := .null) trivial)
  | some e => exact (ih.evaluate hm e).bind fun v _ hm hv => .pure hm hv

theorem call_succ (hm : P.machine m) {c : Callable} {args : List Value}
    (hc : P.value m (.callable c)) (hargs : ∀ v ∈ args, P.value m v) :
    Under P m (Eval.call (k + 1) c args) P.value := by
  cases c with
  | closure c =>
    unfold Eval.call
    dsimp only
    rw [← bind_assoc]
    have bound (x : String) (v : Value)
        (hv : (bindParams c.function.params args).get? x = some v) : P.value m v :=
      hargs v (Eval.mem_of_get?_bindParams hv)
    refine (Under.inside hP hm (hP.closure.1 hc) bound fun hm =>
      ih.executeAll hm c.function.body).bind fun completion _ hm hcompletion => ?_
    cases completion with
    | normal => exact .pure hm (hP.plain (v := .null) trivial)
    | returned v => exact .pure hm hcompletion
    | broken | continued => exact .fail hP hm
  | struct t => exact .instantiate hP hm hc
  | native n => exact ih.callHost (hP.native hc).1 hm (hP.native hc).2 hargs

theorem callHost_succ (hh : P.hosted) (hm : P.machine m) {op : HostOperation} {args : List Value}
    (hop : op ≠ .nested) (hargs : ∀ v ∈ args, P.value m v) :
    Under P m (Eval.callHost (k + 1) op args) P.value := by
  have nth (vs : List Value) (hvs : ∀ v ∈ vs, P.value m v) : P.value m (vs.headD .null) := by
    cases vs with
    | nil => exact hP.plain (v := .null) trivial
    | cons v vs => exact hvs v List.mem_cons_self
  have harg := nth args hargs
  unfold Eval.callHost
  cases op with
  | clock =>
    exact .bind (Q := fun _ _ => True)
      (.of_ok rfl (.of_eq rfl rfl) (hP.other hm rfl rfl rfl rfl rfl) trivial)
      fun now _ hm _ => .pure hm (hP.plain (v := .number _) trivial)
  | typeName | text => exact .pure hm (hP.plain (v := .string _) trivial)
  | idle => exact .pure hm (hP.plain (v := .null) trivial)
  | double | arity =>
    dsimp only
    split
    · exact .pure hm (hP.plain (v := .number _) trivial)
    · exact .fail hP hm
  | number =>
    exact .bind (Q := fun _ _ => True)
      (.ofExcept hm (fun _ _ => trivial) fun e he => hP.runtime (Value.operand_runtime he))
      fun n _ hm _ => .pure hm (hP.plain (v := .number _) trivial)
  | apply =>
    dsimp only
    split
    · next c hc =>
      rw [hc] at harg
      have hsecond := nth args.tail fun v hv => hargs v (List.mem_of_mem_tail hv)
      exact ih.call hm harg (List.forall_mem_singleton.2 hsecond)
    · exact .fail hP hm
  | names => exact .get (.pure hm (hP.plain (v := .string _) trivial))
  | nested => exact absurd rfl hop
  | custom key =>
    have shown : (HostEvent.called key args).Shows (P.value m) P.error := hargs
    exact (Under.hear hP hh hm shown).bind fun _ _ hm _ => ih.converse hh hm

theorem converse_succ (hh : P.hosted) (hm : P.machine m) :
    Under P m (Eval.converse (k + 1)) P.value := by
  unfold Eval.converse
  refine .get ?_
  obtain ⟨huses, hrun⟩ := hP.host hh hm
  split
  · next outcome hmove =>
    rw [hmove] at huses
    cases outcome with
    | ok v => exact .pure hm huses
    | error e => exact .throw hm huses
  · next c args hmove =>
    rw [hmove] at huses
    exact (ih.call hm huses.1 huses.2).attempt.bind fun outcome _ hm hout =>
      (Under.hear hP hh hm (HostEvent.shows_answered hout.1 hout.2)).bind fun _ _ hm _ =>
        ih.converse hh hm
  · next source hmove => exact absurd hmove (hrun source)

theorem execute_succ (hm : P.machine m) (s : Stmt) :
    Under P m (Eval.execute (k + 1) s) P.completion := by
  have fresh {m : Machine} (x : String) (v : Value)
      (hv : (Bindings.empty : Bindings Value).get? x = some v) : P.value m v := by
    simp at hv
  unfold Eval.execute
  cases s with
  | expression e => exact (ih.evaluate hm e).bind fun v _ hm _ => .pure hm trivial
  | print e =>
    exact (ih.evaluate hm e).bind fun v _ hm _ => (Under.print hP hm _).bind fun _ _ hm _ =>
      .pure hm trivial
  | «let» name value =>
    exact (ih.evaluateOpt hm value).bind fun v _ hm hv => (Under.define hP hm _ hv).bind
      fun _ _ hm _ => .pure hm trivial
  | block body =>
    exact .get (.inside hP hm (hP.current hm) fresh fun hm => ih.executeAll hm body)
  | «if» condition yes no =>
    refine (ih.evaluate hm condition).bind fun v _ hm _ => ?_
    split
    · exact ih.execute hm yes
    · cases no with
      | none => exact .pure hm trivial
      | some s => exact ih.execute hm s
  | «while» condition body => exact ih.loop hm _ _ body
  | «for» name value condition step body =>
    exact .get (.inside hP hm (hP.current hm) fresh fun hm =>
      (ih.evaluateOpt hm value).bind fun v _ hm hv => (Under.define hP hm _ hv).bind
        fun _ _ hm _ => ih.loop hm condition step body)
  | «break» | «continue» => exact .pure hm trivial
  | «return» line value => exact (ih.evaluateOpt hm value).bind fun v _ hm hv => .pure hm hv
  | struct name methods =>
    exact (Under.declareStruct hP hm name methods).bind fun _ _ hm _ => .pure hm trivial

omit hP in
theorem executeAll_succ (hm : P.machine m) (ss : List Stmt) :
    Under P m (Eval.executeAll (k + 1) ss) P.completion := by
  cases ss with
  | nil => exact .pure hm trivial
  | cons s ss =>
    refine (ih.execute hm s).bind fun c _ hm hc => ?_
    split
    · exact ih.executeAll hm ss
    · exact .pure hm hc

omit hP in
theorem loop_succ (hm : P.machine m) (condition step : Option Expr) (body : Stmt) :
    Under P m (Eval.loop (k + 1) condition step body) P.completion := by
  unfold Eval.loop
  refine (ih.evaluateOpt hm condition).bind fun v _ hm _ => ?_
  split
  · refine (ih.execute hm body).bind fun c _ hm hc => ?_
    split
    · exact .pure hm trivial
    · exact .pure hm hc
    · exact (ih.evaluateOpt hm step).bind fun _ _ hm _ => ih.loop hm condition step body
  · exact .pure hm trivial

theorem interpret_succ (hm : P.machine m) (ss : List Stmt) :
    Under P m (Eval.interpret (k + 1) ss) fun _ _ => True := by
  cases ss with
  | nil => exact .flush hP hm
  | cons s ss =>
    refine (ih.execute hm s).bind fun c _ hm _ => .bind (Q := fun _ _ => True) ?_
      fun _ _ hm _ => ih.interpret hm ss
    cases c with
    | normal => exact .pure hm trivial
    | returned | broken | continued => exact .fail hP hm

theorem succ : Ruled P (k + 1) where
  evaluate hm e := ih.evaluate_succ hP hm e
  evaluateAll hm es := ih.evaluateAll_succ hP hm es
  evaluateOpt hm e := ih.evaluateOpt_succ hP hm e
  call hm _ _ hc hargs := ih.call_succ hP hm hc hargs
  callHost hh hm _ _ hop hargs := ih.callHost_succ hP hh hm hop hargs
  converse hh hm := ih.converse_succ hP hh hm
  execute hm s := ih.execute_succ hP hm s
  executeAll hm ss := ih.executeAll_succ hm ss
  loop hm condition step body := ih.loop_succ hm condition step body
  interpret hm ss := ih.interpret_succ hP hm ss

end Ruled

/-- **All of the evaluation keeps a stable regime.** -/
theorem ruled {P : Regime} (hP : P.Stable) : ∀ k, Ruled P k
  | 0 => ruled_zero P
  | k + 1 => (ruled hP k).succ hP

/-! ## Program texts -/

section

variable {P : Regime} (hP : P.Stable) {m m' : Machine} {source : String}
include hP

theorem parseText_machine (hm : P.machine m) {r : Except Error (List Stmt)}
    (h : Eval.parseText source m = some (r, m')) : P.machine m' := by
  obtain ⟨site, -, rfl, -⟩ := Eval.parseText_eq h
  exact hP.other hm rfl rfl rfl rfl rfl

theorem load_machine (hm : P.machine m) {r : Except Error (List Stmt)}
    (h : Eval.load source m = some (r, m')) : P.machine m' := by
  obtain ⟨site, -, ⟨e, -, -, rfl⟩ | ⟨program, ds, -, -, -, -, rfl⟩⟩ := Eval.load_eq h
  · exact hP.other hm rfl rfl rfl rfl rfl
  · exact hP.other hm rfl rfl rfl rfl rfl

/-- **Running a text keeps a stable regime**, unless the text is turned down, when all that is
    changed is the next site. -/
theorem run_machine (hm : P.machine m) {k : Nat} {r : Except Error Unit}
    (h : Eval.run k source m = some (r, m')) : P.machine m' ∧
      ∀ e, r = .error e → P.error e ∨ ∃ site, m' = { m with nextSite := site } := by
  cases k with
  | zero => cases h
  | succ k =>
    have hrun : (Eval.load source >>= Eval.interpret k) m = some (r, m') := h
    rw [bind_apply] at hrun
    rcases hload : Eval.load source m with _ | ⟨e | program, m₁⟩
    · rw [hload] at hrun; cases hrun
    · rw [hload] at hrun
      cases hrun
      refine ⟨load_machine hP hm hload, fun _ _ => Or.inr ?_⟩
      obtain ⟨site, -, ⟨_, -, -, hm'⟩ | ⟨_, _, he, -⟩⟩ := Eval.load_eq hload
      · exact ⟨site, hm'⟩
      · cases he
    · rw [hload] at hrun
      obtain ⟨-, hm', -, he⟩ := (ruled hP k).interpret (load_machine hP hm hload) program r m' hrun
      exact ⟨hm', fun e hr => Or.inl (he e hr)⟩

end

end Eval

end Scriptling
