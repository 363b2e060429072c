/-
  Pursuit — what is run with the loops written in one way ends as with the loops in another way.

  A `for` and the block that it stands for do not take the same fuel, so that the one is compared
  with the other for all but finitely many amounts.

  * `Eval.Settles`: a computation ends in one way, given fuel enough;
  * `Eval.Ensues`: wherever one computation ends, another one settles alike;
  * `Eval.Ensues.bind`, `Eval.Ensues.inside`, `Eval.Ensues.later`: how such computations are put
    together;
  * `Eval.Ensues.read`, `Eval.Ensues.property` and their companions: the elementary steps.
-/
import Scriptling.Proofs.Kinship
import Scriptling.Proofs.Loops

namespace Scriptling.Eval

variable {α β : Type} {m m' : Machine}

/-! ## Outcomes -/

/-- **A computation ends in this way whenever it has fuel enough.** -/
def Settles (acts : Nat → Eval α) (m : Machine) (o : Except Error α × Machine) : Prop :=
  ∃ N, ∀ n, N ≤ n → acts n m = some o

/-- Outcomes with related results, on machines that are kin. -/
structure Outcomes (Q : α → α → Prop) (o o' : Except Error α × Machine) : Prop where
  result : Results Q o.1 o'.1
  machine : o.2.Kin o'.2

/-- **Wherever one computation ends, another one settles alike** on a machine that is kin.

    The other one is given with every amount of fuel: how much it takes depends on how the loops in
    it are written, and on the machine. -/
def Ensues (act : Eval α) (acts : Nat → Eval α) (Q : α → α → Prop) : Prop :=
  ∀ ⦃m m' o⦄, m.Kin m' → act m = some o → ∃ o', Settles acts m' o' ∧ Outcomes Q o o'

namespace Settles

variable {acts : Nat → Eval α} {o : Except Error α × Machine}

theorem of_eq {act : Eval α} (h : act m = some o) : Settles (fun _ => act) m o :=
  ⟨0, fun _ _ => h⟩

theorem error {fs : Nat → α → Eval β} {e : Error} (h : Settles acts m (.error e, m')) :
    Settles (fun n => acts n >>= fs n) m (.error e, m') := by
  obtain ⟨N, hN⟩ := h
  exact ⟨N, fun n hn => (bind_apply _ _ _).trans (by rw [hN n hn])⟩

theorem bind {fs : Nat → α → Eval β} {a : α} {o : Except Error β × Machine}
    (h : Settles acts m (.ok a, m')) (hf : Settles (fun n => fs n a) m' o) :
    Settles (fun n => acts n >>= fs n) m o := by
  obtain ⟨N, hN⟩ := h
  obtain ⟨K, hK⟩ := hf
  refine ⟨max N K, fun n hn => (bind_apply _ _ _).trans ?_⟩
  rw [hN n (le_trans (le_max_left N K) hn)]
  exact hK n (le_trans (le_max_right N K) hn)

end Settles

namespace Ensues

variable {act : Eval α} {acts : Nat → Eval α} {Q : α → α → Prop}

/-! ### Composition -/

theorem exhausted : Ensues Eval.exhausted acts Q := fun _ _ _ _ ho => nomatch ho

theorem pure {a a' : α} (h : Q a a') : Ensues (Pure.pure a) (fun _ => Pure.pure a') Q := by
  rintro m m' _ hm ⟨⟩
  exact ⟨_, .of_eq rfl, .ok h, hm⟩

theorem throw {e : Error} : Ensues (throw e : Eval α) (fun _ => throw e) Q := by
  rintro m m' _ hm ⟨⟩
  exact ⟨_, .of_eq rfl, .error, hm⟩

theorem fail (line : Nat) (fault : RuntimeFault) :
    Ensues (Eval.fail line fault : Eval α) (fun _ => Eval.fail line fault) Q := throw

theorem ofExcept {r r' : Except Error α} (h : Results Q r r') :
    Ensues (Eval.ofExcept r) (fun _ => Eval.ofExcept r') Q := by
  cases h with
  | ok h => exact .pure h
  | error => exact .throw

theorem same (r : Except Error α) :
    Ensues (Eval.ofExcept r) (fun _ => Eval.ofExcept r) fun a a' => a' = a :=
  ofExcept (by cases r; exacts [.error, .ok rfl])

theorem bind {f : α → Eval β} {fs : Nat → α → Eval β} {R : β → β → Prop} (h : Ensues act acts Q)
    (hf : ∀ {a a'}, Q a a' → Ensues (f a) (fun n => fs n a') R) :
    Ensues (act >>= f) (fun n => acts n >>= fs n) R := by
  intro m m' o hm ho
  rw [bind_apply] at ho
  rcases hact : act m with _ | ⟨r, m₁⟩
  · rw [hact] at ho
    cases ho
  · obtain ⟨⟨r', m₁'⟩, hsettles, hresult, hm₁⟩ := h hm hact
    rw [hact] at ho
    cases hresult with
    | ok hQ =>
      obtain ⟨o', hsettles', ho'⟩ := hf hQ hm₁ ho
      exact ⟨o', hsettles.bind hsettles', ho'⟩
    | error =>
      cases ho
      exact ⟨_, hsettles.error, .error, hm₁⟩

/-- What the computations learn from the machines at their start. -/
theorem get {f : Machine → Eval α} {fs : Nat → Machine → Eval α}
    (h : ∀ {m m' : Machine}, m.Kin m' → Ensues (f m) (fun n => fs n m') Q) :
    Ensues (MonadState.get >>= f) (fun n => MonadState.get >>= fs n) Q := fun _ _ _ hm => h hm hm

/-- Computations whose outcomes are known. -/
theorem of_ok {act' : Eval α} {result result' : Machine → α} {after after' : Machine → Machine}
    (hact : ∀ m, act m = some (.ok (result m), after m))
    (hact' : ∀ m, act' m = some (.ok (result' m), after' m))
    (h : ∀ m m' : Machine, m.Kin m' → (after m).Kin (after' m') ∧ Q (result m) (result' m')) :
    Ensues act (fun _ => act') Q := by
  intro m m' o hm ho
  rw [hact] at ho
  cases ho
  exact ⟨_, .of_eq (hact' m'), .ok (h m m' hm).2, (h m m' hm).1⟩

/-- Something is changed on the machines. -/
theorem change {f f' : Machine → Machine}
    (h : ∀ m m' : Machine, m.Kin m' → (f m).Kin (f' m')) :
    Ensues (modify f) (fun _ => modify f') fun _ _ => True :=
  .of_ok (fun _ => rfl) (fun _ => rfl) fun m m' hm => ⟨h m m' hm, trivial⟩

/-- Something is done in a new scope. -/
theorem inside {base : Chain} {b b' : Bindings Value} (hb : b.Kin b') (h : Ensues act acts Q) :
    Ensues (newScope base b >>= fun scope => within scope act)
      (fun n => newScope base b' >>= fun scope => within scope (acts n)) Q := by
  intro m m' o hm ho
  rw [inside_apply] at ho
  obtain ⟨o₁, ho₁, rfl⟩ := Option.map_eq_some_iff.1 ho
  obtain ⟨o', ⟨N, hN⟩, hresult, hm₁⟩ := h ((hm.child base hb).enter _) ho₁
  refine ⟨(o'.1, { o'.2 with scope := m.scope }), ⟨N, fun n hn => inside_apply.trans ?_⟩, hresult,
    hm₁.enter m.scope⟩
  rw [hm.size, hm.scope, hN n hn]
  rfl

theorem attempt (h : Ensues act acts Q) :
    Ensues (Eval.attempt act) (fun n => Eval.attempt (acts n)) (Results Q) := by
  intro m m' o hm ho
  unfold Eval.attempt at ho
  split at ho
  · cases ho
  · next r m₁ hact =>
    cases ho
    obtain ⟨o', ⟨N, hN⟩, hresult, hm₁⟩ := h hm hact
    refine ⟨(.ok o'.1, o'.2), ⟨N, fun n hn => ?_⟩, .ok hresult, hm₁⟩
    dsimp only
    rw [Eval.attempt, hN n hn]

/-! ### Fuel -/

/-- The other computation may be given more fuel first. -/
theorem later (d : Nat) (h : Ensues act (fun n => acts (n + d)) Q) : Ensues act acts Q := by
  intro m m' o hm ho
  obtain ⟨o', ⟨N, hN⟩, ho'⟩ := h hm ho
  refine ⟨o', ⟨N + d, fun n hn => ?_⟩, ho'⟩
  have known : acts (n - d + d) m' = some o' := hN (n - d) (by omega)
  rwa [Nat.sub_add_cancel (by omega)] at known

theorem sooner (d : Nat) (h : Ensues act acts Q) : Ensues act (fun n => acts (n + d)) Q := by
  intro m m' o hm ho
  obtain ⟨o', ⟨N, hN⟩, ho'⟩ := h hm ho
  exact ⟨o', ⟨N, fun n hn => hN _ (by omega)⟩, ho'⟩

theorem of_extends {act' : Eval α} (hact : Extends act act') (h : Ensues act' acts Q) :
    Ensues act acts Q := fun _ _ _ hm ho => h hm (hact _ _ ho)

/-! ### Elementary steps -/

theorem freshIdentity :
    Ensues Eval.freshIdentity (fun _ => Eval.freshIdentity) fun i i' => i' = i :=
  .of_ok (fun _ => rfl) (fun _ => rfl) fun _ _ hm =>
    ⟨{ hm with identity := congrArg (· + 1) hm.identity }, hm.identity⟩

theorem makeClosure {f f' : Function} (hf : Recast Eq (.function f) (.function f')) :
    Ensues (Eval.makeClosure f) (fun _ => Eval.makeClosure f') Closure.Kin := by
  refine freshIdentity.bind fun hi => ?_
  subst hi
  exact .of_ok (fun _ => rfl) (fun _ => rfl) fun m m' hm => ⟨hm, rfl, hm.scope, hf⟩

theorem define (x : String) {v v' : Value} (hv : v.Kin v') :
    Ensues (Eval.define x v) (fun _ => Eval.define x v') fun _ _ => True :=
  change fun _ _ hm => hm.define x hv

theorem read (site : Nat) (name : Name) :
    Ensues (Eval.read site name) (fun _ => Eval.read site name) Value.Kin := by
  refine .get fun {m m'} hm => .ofExcept ?_
  rw [hm.binder_eq]
  cases m.binder site name with
  | error => exact .error
  | ok F =>
    have found := hm.frames F name.text
    have value : ∀ n : Machine, (Except.ok F >>= fun F => n.frames.value F name) =
        n.frames.value F name := fun _ => rfl
    rw [value, value]
    unfold Frames.value
    generalize (m.frames.frame F).get? name.text = a at found
    generalize (m'.frames.frame F).get? name.text = a' at found
    cases found with
    | some hv => exact .ok hv
    | none => exact .error

theorem write (site : Nat) (name : Name) {v v' : Value} (hv : v.Kin v') :
    Ensues (Eval.write site name v) (fun _ => Eval.write site name v') fun _ _ => True := by
  refine .get fun {m m'} hm => ?_
  rw [hm.binder_eq]
  cases m.binder site name with
  | error => exact .throw
  | ok F => exact change fun _ _ hm => hm.set F _ hv

theorem assign (name : Name) {v v' : Value} (hv : v.Kin v') :
    Ensues (Eval.assign name v) (fun _ => Eval.assign name v') fun _ _ => True := by
  refine .get fun {m m'} hm => ?_
  rw [hm.scope, hm.find_eq]
  cases m.frames.find m.scope name with
  | error => exact .throw
  | ok F => exact change fun _ _ hm => hm.set F _ hv

theorem print (text : String) :
    Ensues (Eval.print text) (fun _ => Eval.print text) fun _ _ => True := by
  refine .bind (Q := fun whole whole' => whole' = whole)
    (.of_ok (fun _ => rfl) (fun _ => rfl) fun m m' hm => ?_) fun {whole whole'} h => ?_
  · have hsink := congrArg (fun k => Sink.write k (text ++ "\n")) hm.sink
    exact ⟨{ hm with sink := congrArg Prod.fst hsink }, congrArg Prod.snd hsink⟩
  · subst h
    cases whole' with
    | true => exact .pure trivial
    | false => exact .throw

theorem flush : Ensues Eval.flush (fun _ => Eval.flush) fun _ _ => True := by
  refine .get fun {m m'} hm => ?_
  rw [hm.sink]
  split
  · exact .throw
  · exact .pure trivial

theorem tick : Ensues Eval.tick (fun _ => Eval.tick) fun t t' => t' = t :=
  .of_ok (fun _ => rfl) (fun _ => rfl) fun _ _ hm =>
    ⟨{ hm with time := congrArg (· + 1) hm.time }, hm.time⟩

theorem hear {event event' : HostEvent} (h : event.Kin event') :
    Ensues (Eval.hear event) (fun _ => Eval.hear event') fun _ _ => True :=
  change fun _ _ hm => { hm with heard := .cons h hm.heard }

theorem instantiate {t t' : Template} (ht : t.Kin t') :
    Ensues (Eval.instantiate t) (fun _ => Eval.instantiate t') Value.Kin :=
  .of_ok (fun _ => rfl) (fun _ => rfl) fun m m' hm =>
    ⟨hm.object, by rw [hm.objects_size]; exact .object ht⟩

theorem setField (i : Nat) (x : String) {v v' : Value} (hv : v.Kin v') :
    Ensues (Eval.setField i x v) (fun _ => Eval.setField i x v') fun _ _ => True :=
  change fun _ _ hm => hm.setField i x hv

theorem bindMethod {a a' : Closure} (ha : a.Kin a') {v v' : Value} (hv : v.Kin v') :
    Ensues (Eval.bindMethod a v) (fun _ => Eval.bindMethod a' v') Value.Kin := by
  refine .bind (Q := fun scope scope' => scope' = scope)
    (.of_ok (fun _ => rfl) (fun _ => rfl) fun m m' hm => ?_) fun hs => ?_
  · rw [ha.scope]
    exact ⟨hm.child a.scope (Bindings.kin_empty.set "this" hv), by rw [hm.size]⟩
  · subst hs
    exact freshIdentity.bind fun hi => .pure (.callable (.closure ⟨hi, rfl, ha.function⟩))

theorem property {t t' : Template} (ht : t.Kin t') (i : Nat) (name : Name) :
    Ensues (Eval.property t i name) (fun _ => Eval.property t' i name) Value.Kin := by
  refine .get fun {m m'} hm => ?_
  have field := hm.objects i name.text
  have method := ht.methods name.text
  dsimp only
  generalize (m.objects[i]?.getD .empty).get? name.text = a at field
  generalize (m'.objects[i]?.getD .empty).get? name.text = a' at field
  cases field with
  | some hv => exact .pure hv
  | none =>
    generalize t.methods.get? name.text = b at method
    generalize t'.methods.get? name.text = b' at method
    cases method with
    | some ha => exact .bindMethod ha (.object ht)
    | none => exact .fail _ _

/-- The methods of a struct, by name. -/
theorem closures {fs fs' : List Function} (h : Recast Eq (.methods fs) (.methods fs'))
    {table table' : Bindings Closure}
    (ht : ∀ x, Option.Rel Closure.Kin (table.get? x) (table'.get? x)) :
    Ensues (fs.foldlM (fun table f => do return table.set f.title (← Eval.makeClosure f)) table)
      (fun _ => fs'.foldlM (fun table f => do return table.set f.title (← Eval.makeClosure f))
        table') fun table table' => ∀ x, Option.Rel Closure.Kin (table.get? x) (table'.get? x) := by
  induction fs generalizing fs' table table' with
  | nil =>
    cases h
    exact .pure ht
  | cons f fs ih =>
    cases h with
    | @methods _ f' _ _ hf hfs =>
      rw [List.foldlM_cons]
      simp only [List.foldlM_cons]
      refine .bind (Q := fun table table' =>
          ∀ x, Option.Rel Closure.Kin (table.get? x) (table'.get? x))
        ((makeClosure hf).bind fun ha => .pure fun x => ?_) fun ht => ih hfs ht
      rw [hf.title_eq, Bindings.get?_set, Bindings.get?_set]
      split
      · exact .some ha
      · exact ht x

theorem declareStruct (name : Name) {methods methods' : List Function}
    (h : Recast Eq (.methods methods) (.methods methods')) :
    Ensues (Eval.declareStruct name methods) (fun _ => Eval.declareStruct name methods')
      fun _ _ => True :=
  (define _ (.plain (v := .null) trivial)).bind fun _ => (closures h fun x => by simp).bind
    fun ht => freshIdentity.bind fun hi => assign _ (.callable (.struct ⟨hi, rfl, ht⟩))

/-- The same program is read on both machines. -/
theorem parseText (source : String) :
    Ensues (Eval.parseText source) (fun _ => Eval.parseText source)
      fun program program' => program' = program := by
  refine (same (tokens source)).bind fun h => ?_
  subst h
  refine .get fun hm => ?_
  rw [hm.site]
  refine .bind (change fun _ _ hm => ?_) fun _ => same _
  exact { hm with site := rfl }

/-- A program that is read on both machines is accepted or refused on both, with the same
    distances. -/
theorem load (source : String) :
    Ensues (Eval.load source) (fun _ => Eval.load source)
      fun program program' => program' = program := by
  refine (parseText source).bind fun h => ?_
  subst h
  refine .get fun hm => ?_
  rw [hm.globalNames_eq]
  refine (same _).bind fun h => ?_
  subst h
  refine .bind (change fun _ _ hm => ?_) fun _ => .pure rfl
  exact { hm with distances := by rw [hm.distances] }

end Ensues

end Scriptling.Eval
