/-
  Lockstep — a program and the same program with its variables renamed, run side by side.

  * `Eval.Lockstep`: from twins on, two computations end in the same way, on twins;
  * `Eval.locked`: what is run of a program and what is run of the renamed one go in lockstep;
  * `Session.renaming_unseen`: so the renamed program prints the same, binds the same globals and
    ends in the same way.
-/
import Mathlib
import Scriptling.Proofs.Mirrors
import Scriptling.Proofs.Sessions
import Scriptling.Proofs.Twins

namespace Scriptling

variable {ρ : Renaming} {W V : Marking} {D E : Depth} {c : Chain} {m m' : Machine} {α β : Type}

/-! ## Outcomes -/

/-- Both computations run out of fuel, or end in values that are alike, or in errors, on twins. -/
inductive Renaming.Outcomes (ρ : Renaming) (W : Marking) (c : Chain) (Q : Marking → α → α → Prop) :
    Option (Except Error α × Machine) → Option (Except Error α × Machine) → Prop
  | exhausted : Outcomes ρ W c Q none none
  | ok {V : Marking} {a a' m m'} : W.Le V → ρ.Twins V c m m' → Q V a a' →
      Outcomes ρ W c Q (some (.ok a, m)) (some (.ok a', m'))
  | error {V : Marking} {e e' m m'} : W.Le V → ρ.Twins V c m m' → ρ.Rewords e e' →
      Outcomes ρ W c Q (some (.error e, m)) (some (.error e', m'))

theorem Renaming.Outcomes.mono {Q : Marking → α → α → Prop}
    {x x' : Option (Except Error α × Machine)} (h : W.Le V) (hx : ρ.Outcomes V c Q x x') :
    ρ.Outcomes W c Q x x' := by
  cases hx with
  | exhausted => exact .exhausted
  | ok hV hm hQ => exact .ok (h.trans hV) hm hQ
  | error hV hm he => exact .error (h.trans hV) hm he

namespace Eval

/-- **From twins on, two computations go in lockstep.** -/
def Lockstep (ρ : Renaming) (W : Marking) (c : Chain) (act act' : Eval α)
    (Q : Marking → α → α → Prop) : Prop :=
  ∀ m m' : Machine, ρ.Twins W c m m' → ρ.Outcomes W c Q (act m) (act' m')

namespace Lockstep

variable {act act' : Eval α} {Q : Marking → α → α → Prop}

/-! ### Composition -/

theorem exhausted : Lockstep ρ W c (Eval.exhausted : Eval α) Eval.exhausted Q :=
  fun _ _ _ => .exhausted

theorem pure {a a' : α} (h : Q W a a') : Lockstep ρ W c (Pure.pure a) (Pure.pure a') Q :=
  fun _ _ hm => .ok (.refl W) hm h

theorem throw {e e' : Error} (h : ρ.Rewords e e') :
    Lockstep ρ W c (throw e : Eval α) (throw e') Q :=
  fun _ _ hm => .error (.refl W) hm h

theorem fail (line : Nat) (fault : RuntimeFault) :
    Lockstep ρ W c (Eval.fail line fault : Eval α) (Eval.fail line fault) Q :=
  .throw (Or.inl rfl)

theorem ofExcept {r : Except Error α} (h : ∀ a, r = .ok a → Q W a a) :
    Lockstep ρ W c (Eval.ofExcept r) (Eval.ofExcept r) Q := by
  cases r with
  | ok a => exact .pure (h a rfl)
  | error e => exact .throw (Or.inl rfl)

theorem bind {f f' : α → Eval β} {R : Marking → β → β → Prop} (h : Lockstep ρ W c act act' Q)
    (hf : ∀ {V a a'}, W.Le V → Q V a a' → Lockstep ρ V c (f a) (f' a') R) :
    Lockstep ρ W c (act >>= f) (act' >>= f') R := by
  intro m m' hm
  rw [bind_apply, bind_apply]
  have hact := h m m' hm
  generalize act m = x at hact
  generalize act' m' = x' at hact
  cases hact with
  | exhausted => exact .exhausted
  | ok hV hm' hQ => exact (hf hV hQ _ _ hm').mono hV
  | error hV hm' he => exact .error hV hm' he

/-- What the computations learn from the machines at their start. -/
theorem get {f f' : Machine → Eval α}
    (h : ∀ {m m' : Machine}, ρ.Twins W c m m' → Lockstep ρ W c (f m) (f' m') Q) :
    Lockstep ρ W c (MonadState.get >>= f) (MonadState.get >>= f') Q := fun _ _ hm => h hm _ _ hm

/-- Computations whose outcomes are known. -/
theorem of_ok {result : Machine → α} {after after' : Machine → Machine} {result' : Machine → α}
    (hact : ∀ m, act m = some (.ok (result m), after m))
    (hact' : ∀ m, act' m = some (.ok (result' m), after' m)) (hW : W.Le V)
    (h : ∀ m m', ρ.Twins W c m m' →
      ρ.Twins V c (after m) (after' m') ∧ Q V (result m) (result' m')) :
    Lockstep ρ W c act act' Q := by
  intro m m' hm
  rw [hact, hact']
  exact .ok hW (h m m' hm).1 (h m m' hm).2

/-- Something is done in a new scope. -/
theorem inside {base : Chain} {b b' : Bindings Value} (hbase : W.Fits D base) (hE : D.Enters E)
    (hb : ρ.Frame W (E.isAt 0) b b')
    (h : ∀ {V inner}, W.Le V → V.Fits E inner → Lockstep ρ V inner act act' Q) :
    Lockstep ρ W c (newScope base b >>= fun scope => Eval.within scope act)
      (newScope base b' >>= fun scope => Eval.within scope act') Q := by
  intro m m' hm
  have grown := W.le_child (E.isAt 0)
  have entered := (hm.child base hb).enter (W.size :: base)
  have hact := h grown (hbase.child hE) _ _ entered
  rw [inside_apply, inside_apply, hm.size, hm.size', hm.scope, hm.scope']
  generalize act _ = x at hact
  generalize act' _ = x' at hact
  cases hact with
  | exhausted => exact .exhausted
  | ok hV hm' hQ => exact .ok (grown.trans hV) (hm'.enter c) hQ
  | error hV hm' he => exact .error (grown.trans hV) (hm'.enter c) he

/-! ### Elementary steps -/

theorem freshIdentity :
    Lockstep ρ W c Eval.freshIdentity Eval.freshIdentity fun _ i i' => i' = i :=
  .of_ok (fun _ => rfl) (fun _ => rfl) (.refl W) fun _ _ hm =>
    ⟨{ hm with identity := congrArg (· + 1) hm.identity }, hm.identity⟩

theorem makeClosure (part : Function → Part) {f f' : Function}
    (hf : ρ.Renames D (part f) (part f')) (hc : W.Fits D c) :
    Lockstep ρ W c (Eval.makeClosure f) (Eval.makeClosure f') fun V => ρ.Matches V part := by
  refine freshIdentity.bind fun hV hi => ?_
  subst hi
  exact .of_ok (fun _ => rfl) (fun _ => rfl) (.refl _) fun m m' hm =>
    ⟨hm, rfl, hm.scope'.trans hm.scope.symm, D, hf, hm.scope ▸ hc.mono hV⟩

theorem define (hc : W.Fits D c) {x x' : String} (hx : x' = ρ.exchange (D.isAt 0) x) {v v' : Value}
    (hv : ρ.Alike W v v') :
    Lockstep ρ W c (Eval.define x v) (Eval.define x' v') fun _ _ _ => True :=
  .of_ok (fun _ => rfl) (fun _ => rfl) (.refl W) fun _ _ hm => ⟨hm.define hc hx hv, trivial⟩

theorem read {site : Nat} {n n' : Name} (hn : ρ.Renames D (.reference site n) (.reference site n'))
    (hc : W.Fits D c) :
    Lockstep ρ W c (Eval.read site n) (Eval.read site n') fun V => ρ.Alike V := by
  refine .get fun {m m'} hm => ?_
  rcases hm.binder hn hc with ⟨F, hF, hF', ht⟩ | ⟨e, e', he, he', hr⟩
  · rw [hF, hF']
    have found := hm.frames F n.text
    rw [← ht] at found
    have value : (Except.ok F >>= fun F => m.frames.value F n) = m.frames.value F n := rfl
    have value' : (Except.ok F >>= fun F => m'.frames.value F n') = m'.frames.value F n' := rfl
    rw [value, value']
    unfold Frames.value
    generalize (m.frames.frame F).get? n.text = a at found
    generalize (m'.frames.frame F).get? n'.text = a' at found
    cases found with
    | some hv => exact .pure hv
    | none => exact .throw (Renaming.rewords_undefined hn)
  · rw [he, he']
    exact .throw hr

theorem write {site : Nat} {n n' : Name} (hn : ρ.Renames D (.reference site n) (.reference site n'))
    (hc : W.Fits D c) {v v' : Value} (hv : ρ.Alike W v v') :
    Lockstep ρ W c (Eval.write site n v) (Eval.write site n' v') fun _ _ _ => True := by
  refine .get fun {m m'} hm => ?_
  rcases hm.binder hn hc with ⟨F, hF, hF', ht⟩ | ⟨e, e', he, he', hr⟩
  · rw [hF, hF']
    exact .of_ok (fun _ => rfl) (fun _ => rfl) (.refl W) fun _ _ hm => ⟨hm.set ht hv, trivial⟩
  · rw [he, he']
    exact .throw hr

theorem print (text : String) :
    Lockstep ρ W c (Eval.print text) (Eval.print text) fun _ _ _ => True := by
  refine .bind (Q := fun _ whole whole' => whole' = whole)
    (.of_ok (fun _ => rfl) (fun _ => rfl) (.refl W) fun m m' hm => ?_)
    fun {V whole whole'} _ h => ?_
  · have hsink := congrArg (fun k => Sink.write k (text ++ "\n")) hm.sink
    exact ⟨{ hm with sink := congrArg Prod.fst hsink }, congrArg Prod.snd hsink⟩
  · subst h
    cases whole' with
    | true => exact .pure trivial
    | false => exact .throw (Or.inl rfl)

theorem flush : Lockstep ρ W c Eval.flush Eval.flush fun _ _ _ => True := by
  refine .get fun {m m'} hm => ?_
  rw [hm.sink]
  split
  · exact .throw (Or.inl rfl)
  · exact .pure trivial

theorem instantiate {t t' : Template} (ht : ρ.Templates W t t') :
    Lockstep ρ W c (Eval.instantiate t) (Eval.instantiate t') fun V => ρ.Alike V :=
  .of_ok (fun _ => rfl) (fun _ => rfl) (.refl W) fun m m' hm =>
    ⟨hm.object, by rw [hm.objects_size]; exact .object ht⟩

theorem setField (i : Nat) (x : String) {v v' : Value} (hv : ρ.Alike W v v') :
    Lockstep ρ W c (Eval.setField i x v) (Eval.setField i x v') fun _ _ _ => True :=
  .of_ok (fun _ => rfl) (fun _ => rfl) (.refl W) fun _ _ hm => ⟨hm.setField i x hv, trivial⟩

theorem bindMethod {a a' : Closure} (ha : ρ.Matches W .method a a') {v v' : Value}
    (hv : ρ.Alike W v v') :
    Lockstep ρ W c (Eval.bindMethod a v) (Eval.bindMethod a' v') fun V => ρ.Alike V := by
  obtain ⟨D, hr, hf⟩ := ha.renames
  cases hr with
  | method hr =>
    have receiver : ρ.Frame W (D.inner.isAt 0) (Bindings.empty.set "this" v)
        (Bindings.empty.set "this" v') := by
      have bound := (Renaming.frame_empty (W := W) (D.inner.isAt 0)).set (x := "this") hv
      rwa [Renaming.exchange_this] at bound
    refine .bind (Q := fun V scope scope' => scope' = scope ∧ V.Fits D.inner scope)
      (.of_ok (fun _ => rfl) (fun _ => rfl) (W.le_child (D.inner.isAt 0)) fun m m' hm => ?_)
      fun hV hs => ?_
    · rw [ha.scope]
      refine ⟨hm.child a.scope receiver, ?_, ?_⟩
      · rw [hm.size, hm.size']
      · rw [hm.size]
        exact hf.child D.enters_inner
    · obtain ⟨rfl, hs⟩ := hs
      refine freshIdentity.bind fun hV' hi => .pure (.closure ⟨hi, rfl, D.inner, hr, hs.mono hV'⟩)

theorem property {t t' : Template} (ht : ρ.Templates W t t') (i : Nat) (name : Name) :
    Lockstep ρ W c (Eval.property t i name) (Eval.property t' i name) fun V => ρ.Alike V := by
  refine .get fun {m m'} hm => ?_
  have field := hm.objects i name.text
  have method := ht.methods name.text
  rw [Renaming.exchange_false] at field
  dsimp only
  generalize (m.objects[i]?.getD .empty).get? name.text = a at field
  generalize (m'.objects[i]?.getD .empty).get? name.text = a' at field
  cases field with
  | some hv => exact .pure hv
  | none =>
    generalize t.methods.get? name.text = b at method
    generalize t'.methods.get? name.text = b' at method
    cases method with
    | some ha => exact .bindMethod ha (.object ht)
    | none => exact .fail _ _

/-- The methods of a struct, by name. -/
theorem closures {fs fs' : List Function} (h : ρ.Renames D (.methods fs) (.methods fs'))
    (hc : W.Fits D c) {table table' : Bindings Closure}
    (ht : ∀ x, Option.Rel (ρ.Matches W .method) (table.get? x) (table'.get? x)) :
    Lockstep ρ W c
      (fs.foldlM (fun table f => do return table.set f.title (← Eval.makeClosure f)) table)
      (fs'.foldlM (fun table f => do return table.set f.title (← Eval.makeClosure f)) table')
      fun V table table' =>
        ∀ x, Option.Rel (ρ.Matches V .method) (table.get? x) (table'.get? x) := by
  induction fs generalizing W fs' table table' with
  | nil =>
    cases h
    exact .pure ht
  | cons f fs ih =>
    cases h with
    | @methods _ _ f' _ _ hf hfs =>
      have title : f'.title = f.title := by
        cases hf with
        | method hf => rw [Function.title, Function.title, hf.name_eq]
      rw [List.foldlM_cons, List.foldlM_cons]
      refine .bind (Q := fun V table table' =>
          ∀ x, Option.Rel (ρ.Matches V .method) (table.get? x) (table'.get? x))
        ((makeClosure .method hf hc).bind fun hV ha => .pure fun x => ?_)
        fun hV ht => ih hfs (hc.mono hV) ht
      rw [title, Bindings.get?_set, Bindings.get?_set]
      split
      · exact .some ha
      · exact rel_imp (fun _ _ ha => ha.mono hV) (ht x)

/-- Where no name is bound, none can be assigned to. -/
theorem assign_nil (name : Name) (v v' : Value) :
    Lockstep ρ W [] (Eval.assign name v) (Eval.assign name v') fun _ _ _ => True := by
  intro m m' hm
  rw [assign_apply, assign_apply, hm.scope, hm.scope']
  exact .error (.refl W) hm (Or.inl rfl)

theorem declareStruct {name : Name} {methods methods' : List Function}
    (hx : name.text = ρ.exchange (D.isAt 0) name.text)
    (h : ρ.Renames D (.methods methods) (.methods methods')) (hc : W.Fits D c) :
    Lockstep ρ W c (Eval.declareStruct name methods) (Eval.declareStruct name methods')
      fun _ _ _ => True := by
  have declared {land : Value → Eval Unit}
      (hland : ∀ {V v v'}, W.Le V → ρ.Alike V v v' →
        Lockstep ρ V c (land v) (land v') fun _ _ _ => True) :
      Lockstep ρ W c
        (do
          Eval.define name.text .null
          let table ← methods.foldlM
            (fun table f => do return table.set f.title (← Eval.makeClosure f)) Bindings.empty
          land (.callable (.struct ⟨← Eval.freshIdentity, name.text, table⟩)))
        (do
          Eval.define name.text .null
          let table ← methods'.foldlM
            (fun table f => do return table.set f.title (← Eval.makeClosure f)) Bindings.empty
          land (.callable (.struct ⟨← Eval.freshIdentity, name.text, table⟩)))
        fun _ _ _ => True :=
    (define hc hx (.plain (v := .null) trivial)).bind fun h₁ _ =>
      (closures h (hc.mono h₁) fun x => by simp).bind fun h₂ ht =>
        freshIdentity.bind fun h₃ hi => hland ((h₁.trans h₂).trans h₃)
          (.struct ⟨hi, rfl, fun x => rel_imp (fun _ _ ha => ha.mono h₃) (ht x)⟩)
  cases c with
  | nil => exact declared fun _ _ => assign_nil name _ _
  | cons F base =>
    intro m m' hm
    have hF : F < W.size := (hc.get (i := 0) rfl).1
    rw [declareStruct_eq hm.scope (hm.size ▸ hF), declareStruct_eq hm.scope' (hm.size' ▸ hF)]
    exact declared (fun hV hv => define (hc.mono hV) hx hv) m m' hm

end Lockstep

/-! ## The evaluation -/

/-- Statements end in the same way, with values that are alike. -/
inductive Completes (ρ : Renaming) (W : Marking) : Completion → Completion → Prop
  | normal : Completes ρ W .normal .normal
  | broken {line} : Completes ρ W (.broken line) (.broken line)
  | continued {line} : Completes ρ W (.continued line) (.continued line)
  | returned {v v'} : ρ.Alike W v v' → Completes ρ W (.returned v) (.returned v')

/-- What is known of everything that is run with some fuel. -/
structure Locked (ρ : Renaming) (k : Nat) : Prop where
  evaluate {W D c e e'} : ρ.Renames D (.expr e) (.expr e') → W.Fits D c →
    Lockstep ρ W c (Eval.evaluate k e) (Eval.evaluate k e') fun V => ρ.Alike V
  evaluateAll {W D c es es'} : ρ.Renames D (.exprs es) (.exprs es') → W.Fits D c →
    Lockstep ρ W c (Eval.evaluateAll k es) (Eval.evaluateAll k es') fun V =>
      List.Forall₂ (ρ.Alike V)
  evaluateOpt {W D c e e'} : ρ.Renames D (.optional e) (.optional e') → W.Fits D c →
    Lockstep ρ W c (Eval.evaluateOpt k e) (Eval.evaluateOpt k e') fun V => Option.Rel (ρ.Alike V)
  call {W c f f' args args'} : ρ.Alike W (.callable f) (.callable f') →
    List.Forall₂ (ρ.Alike W) args args' →
    Lockstep ρ W c (Eval.call k f args) (Eval.call k f' args') fun V => ρ.Alike V
  execute {W D c s s'} : ρ.Renames D (.stmt s) (.stmt s') → W.Fits D c →
    Lockstep ρ W c (Eval.execute k s) (Eval.execute k s') fun V => Completes ρ V
  executeAll {W D c ss ss'} : ρ.Renames D (.stmts ss) (.stmts ss') → W.Fits D c →
    Lockstep ρ W c (Eval.executeAll k ss) (Eval.executeAll k ss') fun V => Completes ρ V
  loop {W D c condition condition' step step' body body'} :
    ρ.Renames D (.optional condition) (.optional condition') →
    ρ.Renames D (.optional step) (.optional step') → ρ.Renames D (.rounds body) (.rounds body') →
    W.Fits D c → Lockstep ρ W c (Eval.loop k condition step body)
      (Eval.loop k condition' step' body') fun V => Completes ρ V
  interpret {W D c ss ss'} : ρ.Renames D (.stmts ss) (.stmts ss') → W.Fits D c →
    Lockstep ρ W c (Eval.interpret k ss) (Eval.interpret k ss') fun _ _ _ => True

theorem locked_zero (ρ : Renaming) : Locked ρ 0 where
  evaluate _ _ := .exhausted
  evaluateAll _ _ := .exhausted
  evaluateOpt _ _ := .exhausted
  call _ _ := .exhausted
  execute _ _ := .exhausted
  executeAll _ _ := .exhausted
  loop _ _ _ _ := .exhausted
  interpret _ _ := .exhausted

namespace Locked

variable {k : Nat} (ih : Locked ρ k)
include ih

theorem evaluate_succ {e e' : Expr} (h : ρ.Renames D (.expr e) (.expr e')) (hc : W.Fits D c) :
    Lockstep ρ W c (Eval.evaluate (k + 1) e) (Eval.evaluate (k + 1) e') fun V => ρ.Alike V := by
  unfold Eval.evaluate
  cases h with
  | literal => exact .pure (.plain (Value.isPlain_ofLiteral _))
  | group h => exact ih.evaluate h hc
  | unary h =>
    refine (ih.evaluate h hc).bind fun _ hv => ?_
    rw [hv.resembles.unary_eq]
    exact .ofExcept fun u hu => .plain (UnaryOp.apply_plain hu)
  | binary hl hr =>
    refine (ih.evaluate hl hc).bind fun h₁ ha => (ih.evaluate hr (hc.mono h₁)).bind fun h₂ hb => ?_
    rw [(ha.mono h₂).resembles.binary_eq hb.resembles]
    exact .ofExcept fun u hu => .plain (BinaryOp.apply_plain hu)
  | logical hl hr =>
    refine (ih.evaluate hl hc).bind fun h₁ ha => ?_
    rw [ha.resembles.isDecided_eq]
    split
    · exact .pure ha
    · exact ih.evaluate hr (hc.mono h₁)
  | ternary hcond hy hn =>
    refine (ih.evaluate hcond hc).bind fun h₁ hv => ?_
    rw [hv.resembles.isTruthy_eq]
    split
    · exact ih.evaluate hy (hc.mono h₁)
    · exact ih.evaluate hn (hc.mono h₁)
  | «variable» hn => exact .read hn hc
  | this => exact .read (.receiver _ _) hc
  | assign hv hn =>
    exact (ih.evaluate hv hc).bind fun h₁ hv => (Lockstep.write hn (hc.mono h₁) hv).bind
      fun h₂ _ => .pure (hv.mono h₂)
  | call hf hargs =>
    refine (ih.evaluate hf hc).bind fun {_ v v'} h₁ hf =>
      (ih.evaluateAll hargs (hc.mono h₁)).bind fun {_ vs vs'} h₂ hargs => ?_
    have hlength := hargs.length_eq
    have called {f f' : Callable} {V : Marking} (hf : ρ.Alike V (.callable f) (.callable f'))
        (hargs : List.Forall₂ (ρ.Alike V) vs vs') (line : Nat) : Lockstep ρ V c
          (if vs.length = f.arity then Eval.call k f vs
            else Eval.fail line (.wrongArity f.arity vs.length))
          (if vs'.length = f'.arity then Eval.call k f' vs'
            else Eval.fail line (.wrongArity f'.arity vs'.length)) fun V => ρ.Alike V := by
      rw [Renaming.arity_eq hf, ← hlength]
      split
      · exact ih.call hf hargs
      · exact .fail _ _
    cases hf.mono h₂ with
    | plain hp =>
      cases v with
      | callable => exact hp.elim
      | _ => exact .fail _ _
    | closure ha => exact called (.closure ha) hargs _
    | struct ht => exact called (.struct ht) hargs _
    | object => exact .fail _ _
  | get ho =>
    refine (ih.evaluate ho hc).bind fun {_ v v'} h₁ ho => ?_
    cases ho with
    | plain hp =>
      cases v with
      | object => exact hp.elim
      | _ => exact .fail _ _
    | object ht => exact .property ht _ _
    | closure | struct => exact .fail _ _
  | set hv ho =>
    refine (ih.evaluate ho hc).bind fun {_ v v'} h₁ ho => ?_
    cases ho with
    | plain hp =>
      cases v with
      | object => exact hp.elim
      | _ => exact .fail _ _
    | object =>
      exact (ih.evaluate hv (hc.mono h₁)).bind fun h₂ hv => (Lockstep.setField _ _ hv).bind
        fun h₃ _ => .pure (hv.mono h₃)
    | closure | struct => exact .fail _ _
  | function hx hf =>
    refine (Lockstep.makeClosure .function hf hc).bind fun h₁ ha => ?_
    dsimp only
    rw [hf.name_eq]
    split
    · next name hname =>
      obtain ⟨hfresh, hspared⟩ := hx name hname
      have same := (Renaming.exchange_spared hfresh hspared).symm
      exact (Lockstep.define (hc.mono h₁) same (.closure ha)).bind fun h₂ _ =>
        .pure (.closure (ha.mono h₂))
    · exact .pure (.closure ha)

theorem evaluateAll_succ {es es' : List Expr} (h : ρ.Renames D (.exprs es) (.exprs es'))
    (hc : W.Fits D c) : Lockstep ρ W c (Eval.evaluateAll (k + 1) es)
      (Eval.evaluateAll (k + 1) es') fun V => List.Forall₂ (ρ.Alike V) := by
  cases h with
  | noExprs => exact .pure .nil
  | exprs he hes =>
    exact (ih.evaluate he hc).bind fun h₁ hv => (ih.evaluateAll hes (hc.mono h₁)).bind
      fun h₂ hvs => .pure (.cons (hv.mono h₂) hvs)

theorem evaluateOpt_succ {e e' : Option Expr} (h : ρ.Renames D (.optional e) (.optional e'))
    (hc : W.Fits D c) : Lockstep ρ W c (Eval.evaluateOpt (k + 1) e)
      (Eval.evaluateOpt (k + 1) e') fun V => Option.Rel (ρ.Alike V) := by
  cases h with
  | absent => exact .pure .none
  | present he => exact (ih.evaluate he hc).bind fun _ hv => .pure (.some hv)

theorem call_succ {f f' : Callable} {args args' : List Value}
    (hf : ρ.Alike W (.callable f) (.callable f')) (hargs : List.Forall₂ (ρ.Alike W) args args') :
    Lockstep ρ W c (Eval.call (k + 1) f args) (Eval.call (k + 1) f' args') fun V => ρ.Alike V := by
  cases hf with
  | plain hp => exact hp.elim
  | struct ht => exact .instantiate ht
  | @closure a a' ha =>
    obtain ⟨D, hr, hscope⟩ := ha.renames
    have hsame := ha.scope
    obtain ⟨i, ⟨title, params, body, line⟩, scope⟩ := a
    obtain ⟨i', ⟨title', params', body', line'⟩, scope'⟩ := a'
    cases hsame
    cases hr with
    | body hE hps hbody =>
      unfold Eval.call
      dsimp only
      rw [← bind_assoc, ← bind_assoc]
      refine (Lockstep.inside hscope hE (Renaming.frame_bindParams hps hargs) fun _ hc =>
        ih.executeAll hbody hc).bind fun _ hcompletion => ?_
      cases hcompletion with
      | normal => exact .pure (.plain (v := .null) trivial)
      | returned hv => exact .pure hv
      | broken | continued => exact .fail _ _

theorem execute_succ {s s' : Stmt} (h : ρ.Renames D (.stmt s) (.stmt s')) (hc : W.Fits D c) :
    Lockstep ρ W c (Eval.execute (k + 1) s) (Eval.execute (k + 1) s') fun V => Completes ρ V := by
  unfold Eval.execute
  cases h with
  | expression he => exact (ih.evaluate he hc).bind fun _ _ => .pure .normal
  | print he =>
    refine (ih.evaluate he hc).bind fun _ hv => ?_
    rw [hv.resembles.text_eq]
    exact (Lockstep.print _).bind fun _ _ => .pure .normal
  | «let» hx hv =>
    exact (ih.evaluateOpt hv hc).bind fun h₁ hv => (Lockstep.define (hc.mono h₁)
      (Renaming.text_declared hx) (Renaming.alike_getD hv (u := .null) trivial)).bind
        fun _ _ => .pure .normal
  | block hE hbody =>
    refine .get fun hm => ?_
    rw [hm.scope, hm.scope']
    exact .inside hc hE (Renaming.frame_empty _) fun _ hc => ih.executeAll hbody hc
  | «if» hcond hy hn =>
    refine (ih.evaluate hcond hc).bind fun h₁ hv => ?_
    rw [hv.resembles.isTruthy_eq]
    split
    · exact ih.execute hy (hc.mono h₁)
    · cases hn with
      | noAlternative => exact .pure .normal
      | alternative hs => exact ih.execute hs (hc.mono h₁)
  | «while» hcond hbody => exact ih.loop hcond .absent hbody hc
  | «for» hE h =>
    cases h with
    | clauses hlet hcond hstep hbody =>
      cases hlet with
      | «let» hx hv =>
        refine .get fun hm => ?_
        rw [hm.scope, hm.scope']
        exact .inside hc hE (Renaming.frame_empty _) fun _ hc => (ih.evaluateOpt hv hc).bind
          fun h₁ hv => (Lockstep.define (hc.mono h₁) (Renaming.text_declared hx)
            (Renaming.alike_getD hv (u := .null) trivial)).bind fun h₂ _ =>
              ih.loop hcond hstep hbody ((hc.mono h₁).mono h₂)
  | «break» => exact .pure .broken
  | «continue» => exact .pure .continued
  | «return» hv =>
    exact (ih.evaluateOpt hv hc).bind fun _ hv =>
      .pure (.returned (Renaming.alike_getD hv (u := .null) trivial))
  | struct hfresh hspared hmethods =>
    exact (Lockstep.declareStruct (Renaming.exchange_spared hfresh hspared).symm hmethods hc).bind
      fun _ _ => .pure .normal

theorem executeAll_succ {ss ss' : List Stmt} (h : ρ.Renames D (.stmts ss) (.stmts ss'))
    (hc : W.Fits D c) : Lockstep ρ W c (Eval.executeAll (k + 1) ss) (Eval.executeAll (k + 1) ss')
      fun V => Completes ρ V := by
  cases h with
  | noStmts => exact .pure .normal
  | stmts hs hss =>
    refine (ih.execute hs hc).bind fun h₁ hcompletion => ?_
    cases hcompletion with
    | normal => exact ih.executeAll hss (hc.mono h₁)
    | broken => exact .pure .broken
    | continued => exact .pure .continued
    | returned hv => exact .pure (.returned hv)

theorem loop_succ {condition condition' step step' : Option Expr} {body body' : Stmt}
    (hcond : ρ.Renames D (.optional condition) (.optional condition'))
    (hstep : ρ.Renames D (.optional step) (.optional step'))
    (hbody : ρ.Renames D (.rounds body) (.rounds body')) (hc : W.Fits D c) :
    Lockstep ρ W c (Eval.loop (k + 1) condition step body)
      (Eval.loop (k + 1) condition' step' body') fun V => Completes ρ V := by
  unfold Eval.loop
  refine (ih.evaluateOpt hcond hc).bind fun h₁ hv => ?_
  have truthy := (Renaming.alike_getD hv (u := .bool true) trivial).resembles.isTruthy_eq
  rw [truthy]
  split
  · cases hbody with
    | rounds hround =>
      refine (ih.execute hround (hc.mono h₁)).bind fun h₂ hcompletion => ?_
      have again {V : Marking} (hc : V.Fits D c) := (ih.evaluateOpt hstep hc).bind fun h₃ _ =>
        ih.loop hcond hstep (.rounds hround) (hc.mono h₃)
      cases hcompletion with
      | broken => exact .pure .normal
      | returned hv => exact .pure (.returned hv)
      | normal | continued => exact again ((hc.mono h₁).mono h₂)
  · exact .pure .normal

theorem interpret_succ {ss ss' : List Stmt} (h : ρ.Renames D (.stmts ss) (.stmts ss'))
    (hc : W.Fits D c) : Lockstep ρ W c (Eval.interpret (k + 1) ss) (Eval.interpret (k + 1) ss')
      fun _ _ _ => True := by
  cases h with
  | noStmts => exact .flush
  | stmts hs hss =>
    refine (ih.execute hs hc).bind fun h₁ hcompletion => .bind (Q := fun _ _ _ => True) ?_
      fun h₂ _ => ih.interpret hss ((hc.mono h₁).mono h₂)
    cases hcompletion with
    | normal => exact .pure trivial
    | broken | continued | returned => exact .fail _ _

theorem succ : Locked ρ (k + 1) where
  evaluate h hc := ih.evaluate_succ h hc
  evaluateAll h hc := ih.evaluateAll_succ h hc
  evaluateOpt h hc := ih.evaluateOpt_succ h hc
  call hf hargs := ih.call_succ hf hargs
  execute h hc := ih.execute_succ h hc
  executeAll h hc := ih.executeAll_succ h hc
  loop hcond hstep hbody hc := ih.loop_succ hcond hstep hbody hc
  interpret h hc := ih.interpret_succ h hc

end Locked

/-- **What is run of a program and of the renamed program goes in lockstep.** -/
theorem locked (ρ : Renaming) : ∀ k, Locked ρ k
  | 0 => locked_zero ρ
  | k + 1 => (locked ρ k).succ

end Eval

/-! ## What can be seen of it -/

/-- **Two runs cannot be told apart**, except that an error may name a variable by its other name:
    both run out of fuel, or end with the same output and the same globals, in results that are
    the same or in errors. -/
inductive Renaming.SameRun (ρ : Renaming) (Same : α → α → Prop) :
    Option (Except Error α × Machine) → Option (Except Error α × Machine) → Prop
  | exhausted : SameRun ρ Same none none
  | ok {a a' m m'} : Same a a' → m'.sink = m.sink → m'.globalNames = m.globalNames →
      SameRun ρ Same (some (.ok a, m)) (some (.ok a', m'))
  | error {e e' m m'} : ρ.Rewords e e' → m'.sink = m.sink → m'.globalNames = m.globalNames →
      SameRun ρ Same (some (.error e, m)) (some (.error e', m'))

theorem Renaming.Outcomes.sameRun {Q : Marking → α → α → Prop} {Same : α → α → Prop}
    {x x' : Option (Except Error α × Machine)} (h : ρ.Outcomes W c Q x x')
    (hQ : ∀ V a a', Q V a a' → Same a a') : ρ.SameRun Same x x' := by
  cases h with
  | exhausted => exact .exhausted
  | ok _ hm ha => exact .ok (hQ _ _ _ ha) hm.sink hm.globalNames_eq
  | error _ hm he => exact .error he hm.sink hm.globalNames_eq

/-- On a machine with the distances that have been recorded, without functions of the host, both
    computations can begin. -/
theorem Eval.Lockstep.sameRun {act act' : Eval α} {Q : Marking → α → α → Prop}
    {Same : α → α → Prop} (hm : m.Whole) {t : Distances} (ht : ∀ s, t.get? s = ρ.distance s)
    (h : ∀ {W}, W.Fits none m.scope → Eval.Lockstep ρ W m.scope act act' Q)
    (hQ : ∀ V a a', Q V a a' → Same a a') :
    ρ.SameRun Same (act (m.redirect t)) (act' (m.redirect t)) :=
  (h (Marking.fits_blank hm.scope) _ _ (Renaming.twins_self hm ht)).sameRun hQ

namespace Session

/-- Nothing is recorded for sites that have not been given out. -/
theorem Reached.unrecorded {host : Host} {sink : Sink} {time : Nat} {ps : List Pass}
    (h : Reached (fun _ => True) (Session.start [] host sink time) ps m) {site : Nat}
    (hs : m.nextSite ≤ site) : m.distances.get? site = none := by
  have hrests : Rests ⟨False, True⟩ ps m :=
    h.rests (fun _ _ => Or.inr trivial) (.start [] sink time (Or.inl rfl) False.elim)
  obtain ⟨_, _, hW⟩ := hrests
  exact hW.agrees.fresh site hs

/-- **The names of local variables are not seen.**

    * A variable can be renamed in any scopes of a program, blocks, `for`s and functions, that
      declare it only by variables and parameters, to a name that does not occur there: where they
      declare it, and at the references whose recorded distance leads to one of them.
    * On a machine without functions of the host on which no reference dangles, if a program is
      accepted whose sites are all different and have nothing recorded, so is the renamed program,
      with the same distances.  Both then run with the same output to the same globals, and end in
      the same way, but that the error that a variable is not defined may give the new name.
    * An expression that is renamed is evaluated to a value that is printed in the same way.
    * The machines of all sessions without host functions, and all programs that are parsed on
      them, are such; no program declares `this`. -/
theorem renaming_unseen :
    (∀ (ρ : Renaming) (chosen : Part → Bool) (program : List Stmt),
      (∀ scope, Relation.ReflTransGen Part.Inside scope (.stmts program) → chosen scope = true →
        scope.Renamable ρ) →
      ρ.Renames none (.stmts program) (.stmts (Stmt.renamedAll ρ chosen none program))) ∧
    (∀ (ρ : Renaming) (m : Machine) (program program' : List Stmt) (ds : List (Nat × Nat)),
      m.Whole → (Part.stmts program).sites.Nodup →
      (∀ s ∈ (Part.stmts program).sites, m.distances.get? s = none) →
      resolve m.globalNames program = .ok ds →
      (∀ s, (m.distances.recordAll ds).get? s = ρ.distance s) →
      ρ.Renames none (.stmts program) (.stmts program') →
      resolve m.globalNames program' = .ok ds ∧
      ∀ k, ρ.SameRun (fun _ _ => True) (Eval.submit k program m) (Eval.submit k program' m)) ∧
    (∀ (ρ : Renaming) (m : Machine) (e e' : Expr), m.Whole →
      (∀ s, m.distances.get? s = ρ.distance s) → ρ.Renames none (.expr e) (.expr e') →
      ∀ k, ρ.SameRun (fun v v' => v'.text = v.text) (Eval.evaluate k e m) (Eval.evaluate k e' m)) ∧
    ∀ (host : Host) (sink : Sink) (time : Nat) (ps : List Pass) (m m₁ : Machine) (source : String)
      (program : List Stmt), Reached (fun _ => True) (start [] host sink time) ps m →
      Eval.parseText source m = some (.ok program, m₁) →
      m₁.Whole ∧ (Part.stmts program).sites.Nodup ∧
      (∀ s ∈ (Part.stmts program).sites, m₁.distances.get? s = none) ∧
      "this" ∉ declaredNames program := by
  refine ⟨fun ρ chosen program hc => ?_, ?_, ?_, ?_⟩
  · exact .renamed (.stmts program) none (absurd rfl) nofun hc
  · intro ρ m program program' ds hm hn hnew hds hρ h
    have found (s : Nat) (hs : s ∈ (Part.stmts program).sites) : ρ.distance s = ds.lookup s := by
      rw [← hρ, Distances.get?_recordAll, hnew s hs, Option.or_none]
    have hds' := Renaming.resolve_eq hn hds found h
    refine ⟨hds', fun k => ?_⟩
    rw [Eval.submit_apply, Eval.submit_apply, hds, hds']
    exact Eval.Lockstep.sameRun hm hρ (fun hW => (Eval.locked ρ k).interpret h hW)
      fun _ _ _ _ => trivial
  · intro ρ m e e' hm hρ h k
    exact Eval.Lockstep.sameRun hm hρ (fun hW => (Eval.locked ρ k).evaluate h hW)
      fun _ _ _ hv => hv.resembles.text_eq
  · intro host sink time ps m m₁ source program hm hp
    obtain ⟨site, -, rfl, -, hok⟩ := Eval.parseText_eq hp
    obtain ⟨hdrawn, hnamed⟩ := hok program rfl
    have whole := hm.whole
    refine ⟨⟨whole.root, whole.scope, fun cell x v hv => ?_⟩, hdrawn.nodup, fun s hs => ?_,
      fun hthis => ?_⟩
    · exact { whole.contents cell x v hv with }
    · exact hm.unrecorded (hdrawn.bounds s hs).1
    · cases hnamed "this" hthis

/-- A block with a variable, which another block prints. -/
def shown (x : String) : List Stmt :=
  [.block [.let ⟨x, 1⟩ (some (.literal (.bool true))), .block [.print (.variable 0 ⟨x, 1⟩)],
    .expression (.assign 2 ⟨x, 1⟩ (.literal .null)), .print (.variable 3 ⟨x, 1⟩)]]

/-- The scope of that variable. -/
def isShown : Part → Bool
  | .stmts (.let _ (some (.literal _)) :: .block _ :: .expression (.assign _ _ (.literal _)) ::
      [.print (.variable _ _)]) => true
  | _ => false

theorem not_titles_shown {x : String} {scope : Part} (h : isShown scope = true) :
    ¬ scope.Titles x := by
  unfold isShown at h
  split at h
  · intro ht
    cases ht with
    | piece hq ht =>
      cases hq with
      | head =>
        cases ht with
        | value ht => cases ht.mem_declares
        | piece hq => cases hq
      | tail _ hq =>
        obtain ⟨rfl, -⟩ := Prod.mk.inj (List.mem_singleton.1 hq)
        cases ht.mem_declares
  · cases h

/-- The variable `a` gets the name `z`. -/
def toZ (t : Distances) : Renaming := ⟨t.get?, "a", "z", by decide, by decide⟩

theorem get?_toZ (t : Distances) (site : Nat) : t.get? site = (toZ t).distance site := rfl

theorem renaming_unseen_shown :
    ∃ (m : Machine) (ds : List (Nat × Nat)),
      Eval.parseText "\x7b let a = true; \x7b print a; \x7d a = null; print a; \x7d"
        (start [] relay {} 0) = some (.ok (shown "a"), m) ∧
      resolve m.globalNames (shown "a") = .ok ds ∧ resolve m.globalNames (shown "z") = .ok ds ∧
      (∀ k, (toZ (m.distances.recordAll ds)).SameRun (fun _ _ => True)
        (Eval.submit k (shown "a") m) (Eval.submit k (shown "z") m)) ∧
      ∀ k, (toZ m.distances).SameRun (fun v v' => v'.text = v.text)
        (Eval.evaluate k (.function (.mk none [⟨"a", 1⟩] [] 1)) m)
        (Eval.evaluate k (.function (.mk none [⟨"z", 1⟩] [] 1)) m) := by
  let m : Machine := { start [] relay {} 0 with nextSite := 4 }
  let ds : List (Nat × Nat) := [(3, 0), (2, 0), (0, 1)]
  have parsed : Eval.parseText "\x7b let a = true; \x7b print a; \x7d a = null; print a; \x7d"
      (start [] relay {} 0) = some (.ok (shown "a"), m) := by
    rw [Eval.parseText_apply, tokens, scan_eq]
    cbv
  obtain ⟨whole, nodup, fresh, -⟩ :=
    renaming_unseen.2.2.2 relay {} 0 [] _ m _ (shown "a") .start parsed
  have accepted : resolve m.globalNames (shown "a") = .ok ds := rfl
  have unused : "z" ∉ (Part.stmts (shown "a")).vocabulary := by decide
  have renames := renaming_unseen.1 (toZ (m.distances.recordAll ds)) isShown (shown "a")
    fun scope hs hc => by
      have new : "z" ∉ scope.vocabulary := fun h => unused (Part.vocabulary_subset_of_within hs h)
      cases scope with
      | stmts => exact ⟨new, not_titles_shown hc⟩
      | _ => cases hc
  have renamed : Stmt.renamedAll (toZ (m.distances.recordAll ds)) isShown none (shown "a") =
      shown "z" := by
    cbv
  rw [renamed] at renames
  have literal : (toZ m.distances).Renames none (.expr (.function (.mk none [⟨"a", 1⟩] [] 1)))
      (.expr (.function (.mk none [⟨"z", 1⟩] [] 1))) :=
    .function (fun _ h => by cases h) (.body .here (List.forall_mem_singleton.2 fun _ => by decide) .noStmts)
  obtain ⟨accepted', runs⟩ := renaming_unseen.2.1 (toZ (m.distances.recordAll ds)) m (shown "a")
    (shown "z") ds whole nodup fresh accepted (get?_toZ _) renames
  exact ⟨m, ds, parsed, accepted, accepted', runs,
    renaming_unseen.2.2.1 (toZ m.distances) m _ _ whole (get?_toZ _) literal⟩

end Session

end Scriptling
