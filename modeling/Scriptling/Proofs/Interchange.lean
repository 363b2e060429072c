/-
  Interchange — programs that write their loops in another way do the same.

  * `Eval.Pursued`, `Eval.pursued`: whatever is run of a program with some fuel, it ensues for a
    recast program, rule by rule, by induction on the fuel;
  * `Eval.Indistinct`: two computations that cannot be told apart on a machine;
  * `Eval.Ensues.indistinct`: if either ensues for the other, they cannot;
  * `loops_interchange`: a `for` without a step and a block with a `while`, from the tokens to what
    can be seen of them.
-/
import Mathlib
import Scriptling.Proofs.Pursuit
import Scriptling.Proofs.Serials

namespace Scriptling

variable {same : Nat → Nat → Prop} {α β : Type}

namespace Eval

/-- **What is run of a program with some fuel ensues for a recast program.** -/
structure Pursued (k : Nat) : Prop where
  evaluate {e e'} : Recast Eq (.expr e) (.expr e') →
    Ensues (Eval.evaluate k e) (fun n => Eval.evaluate n e') Value.Kin
  evaluateAll {es es'} : Recast Eq (.exprs es) (.exprs es') →
    Ensues (Eval.evaluateAll k es) (fun n => Eval.evaluateAll n es') (List.Forall₂ Value.Kin)
  evaluateOpt {e e'} : Recast Eq (.optional e) (.optional e') →
    Ensues (Eval.evaluateOpt k e) (fun n => Eval.evaluateOpt n e') (Option.Rel Value.Kin)
  condition {c c'} : Recast Eq (.expr (Expr.guard c)) (.expr (Expr.guard c')) →
    Ensues (Eval.condition k c) (fun n => Eval.condition n c') Value.Kin
  call {c c' : Callable} {args args'} : c.Kin c' → List.Forall₂ Value.Kin args args' →
    Ensues (Eval.call k c args) (fun n => Eval.call n c' args') Value.Kin
  callHost {op args args'} : List.Forall₂ Value.Kin args args' →
    Ensues (Eval.callHost k op args) (fun n => Eval.callHost n op args') Value.Kin
  converse : Ensues (Eval.converse k) Eval.converse Value.Kin
  execute {s s'} : Recast Eq (.stmt s) (.stmt s') →
    Ensues (Eval.execute k s) (fun n => Eval.execute n s') Completion.Kin
  executeAll {ss ss'} : Recast Eq (.stmts ss) (.stmts ss') →
    Ensues (Eval.executeAll k ss) (fun n => Eval.executeAll n ss') Completion.Kin
  loop {c c' step step' body body'} : Recast Eq (.expr (Expr.guard c)) (.expr (Expr.guard c')) →
    Recast Eq (.optional step) (.optional step') → Recast Eq (.stmt body) (.stmt body') →
    Ensues (Eval.loop k c step body) (fun n => Eval.loop n c' step' body') Completion.Kin
  interpret {ss ss'} : Recast Eq (.stmts ss) (.stmts ss') →
    Ensues (Eval.interpret k ss) (fun n => Eval.interpret n ss') fun _ _ => True
  run source : Ensues (Eval.run k source) (fun n => Eval.run n source) fun _ _ => True

theorem pursued_zero : Pursued 0 where
  evaluate _ := .exhausted
  evaluateAll _ := .exhausted
  evaluateOpt _ := .exhausted
  condition _ := .exhausted
  call _ _ := .exhausted
  callHost _ := .exhausted
  converse := .exhausted
  execute _ := .exhausted
  executeAll _ := .exhausted
  loop _ _ _ := .exhausted
  interpret _ := .exhausted
  run _ := .exhausted

/-- What stands for a value that is absent. -/
theorem kin_getD {a a' : Option Value} (h : Option.Rel Value.Kin a a') (v : Value) :
    Value.Kin (a.getD v) (a'.getD v) := by
  cases h with
  | some hv => exact hv
  | none => exact .refl v

/-- The first argument, or what stands for it. -/
theorem kin_headD {args args' : List Value} (h : List.Forall₂ Value.Kin args args') (v : Value) :
    Value.Kin (args.headD v) (args'.headD v) := by
  cases h with
  | nil => exact .refl v
  | cons hv => exact hv

namespace Pursued

variable {k : Nat} (ih : Pursued k)
include ih

theorem evaluate_succ {e e' : Expr} (h : Recast Eq (.expr e) (.expr e')) :
    Ensues (Eval.evaluate (k + 1) e) (fun n => Eval.evaluate (n + 1) e') Value.Kin := by
  unfold Eval.evaluate
  cases h with
  | literal => exact .pure (.refl _)
  | group h => exact ih.evaluate h
  | unary h =>
    refine (ih.evaluate h).bind fun hv => ?_
    rw [hv.resembles.unary_eq]
    exact .ofExcept (.refl .refl _)
  | binary hl hr =>
    refine (ih.evaluate hl).bind fun ha => (ih.evaluate hr).bind fun hb => ?_
    rw [ha.resembles.binary_eq hb.resembles]
    exact .ofExcept (.refl .refl _)
  | logical hl hr =>
    refine (ih.evaluate hl).bind fun ha => ?_
    rw [ha.resembles.isDecided_eq]
    split
    · exact .pure ha
    · exact ih.evaluate hr
  | ternary hc hy hn =>
    refine (ih.evaluate hc).bind fun hv => ?_
    rw [hv.resembles.isTruthy_eq]
    split
    · exact ih.evaluate hy
    · exact ih.evaluate hn
  | «variable» hs =>
    subst hs
    exact .read _ _
  | this hs =>
    subst hs
    exact .read _ _
  | assign hv hs =>
    subst hs
    exact (ih.evaluate hv).bind fun hv => (Ensues.write _ _ hv).bind fun _ => .pure hv
  | call hf hargs =>
    refine (ih.evaluate hf).bind fun {v v'} hf =>
      (ih.evaluateAll hargs).bind fun {vs vs'} hargs => ?_
    cases hf with
    | plain hp =>
      cases v with
      | callable => exact hp.elim
      | _ => exact .fail _ _
    | callable hc =>
      dsimp only
      rw [hc.resembles.arity_eq, ← hargs.length_eq]
      split
      · exact ih.call hc hargs
      · exact .fail _ _
    | object => exact .fail _ _
  | get ho =>
    refine (ih.evaluate ho).bind fun {v v'} ho => ?_
    cases ho with
    | plain hp =>
      cases v with
      | object => exact hp.elim
      | _ => exact .fail _ _
    | callable => exact .fail _ _
    | object ht => exact .property ht _ _
  | set ho hv =>
    refine (ih.evaluate ho).bind fun {v v'} ho => ?_
    cases ho with
    | plain hp =>
      cases v with
      | object => exact hp.elim
      | _ => exact .fail _ _
    | callable => exact .fail _ _
    | object =>
      exact (ih.evaluate hv).bind fun hv => (Ensues.setField _ _ hv).bind fun _ => .pure hv
  | function hf =>
    refine (Ensues.makeClosure hf).bind fun ha => ?_
    have value := Value.Kin.callable (.closure ha)
    dsimp only
    rw [hf.name_eq]
    split
    · exact (Ensues.define _ value).bind fun _ => .pure value
    · exact .pure value

theorem evaluateAll_succ {es es' : List Expr} (h : Recast Eq (.exprs es) (.exprs es')) :
    Ensues (Eval.evaluateAll (k + 1) es) (fun n => Eval.evaluateAll (n + 1) es')
      (List.Forall₂ Value.Kin) := by
  cases h with
  | noExprs => exact .pure .nil
  | exprs he hes =>
    exact (ih.evaluate he).bind fun hv => (ih.evaluateAll hes).bind fun hvs => .pure (.cons hv hvs)

theorem evaluateOpt_succ {e e' : Option Expr} (h : Recast Eq (.optional e) (.optional e')) :
    Ensues (Eval.evaluateOpt (k + 1) e) (fun n => Eval.evaluateOpt (n + 1) e')
      (Option.Rel Value.Kin) := by
  cases h with
  | absent => exact .pure .none
  | present he => exact (ih.evaluate he).bind fun hv => .pure (.some hv)

theorem condition_succ {c c' : Option Expr}
    (h : Recast Eq (.expr (Expr.guard c)) (.expr (Expr.guard c'))) :
    Ensues (Eval.condition (k + 1) c) (fun n => Eval.condition (n + 1) c') Value.Kin := by
  cases c with
  | none =>
    cases c' with
    | none => exact .pure (.refl _)
    | some c' =>
      cases h
      exact .later 1 (.pure (.refl _))
  | some c =>
    cases c' with
    | none =>
      cases h
      exact .of_extends (condition_guard (k + 1) none) (.pure (.refl _))
    | some c' =>
      exact (ih.evaluateOpt_succ (.present h)).bind fun hv => .pure (kin_getD hv _)

theorem call_succ {c c' : Callable} {args args' : List Value}
    (hc : c.Kin c') (hargs : List.Forall₂ Value.Kin args args') :
    Ensues (Eval.call (k + 1) c args) (fun n => Eval.call (n + 1) c' args') Value.Kin := by
  cases hc with
  | struct ht => exact .instantiate ht
  | native => exact ih.callHost hargs
  | @closure a a' ha =>
    have hscope := ha.scope
    have hbody := ha.function
    obtain ⟨i, ⟨title, params, body, line⟩, scope⟩ := a
    obtain ⟨i', ⟨title', params', body', line'⟩, scope'⟩ := a'
    cases hscope
    cases hbody with
    | body hbody =>
      unfold Eval.call
      dsimp only
      simp only [← bind_assoc]
      refine (Ensues.inside (Bindings.kin_bindParams params hargs) (ih.executeAll hbody)).bind
        fun hcompletion => ?_
      cases hcompletion with
      | normal => exact .pure (.refl _)
      | returned hv => exact .pure hv
      | broken | continued => exact .fail _ _

theorem callHost_succ {op : HostOperation} {args args' : List Value}
    (hargs : List.Forall₂ Value.Kin args args') :
    Ensues (Eval.callHost (k + 1) op args) (fun n => Eval.callHost (n + 1) op args')
      Value.Kin := by
  have harg := kin_headD hargs .null
  have hnext : Value.Kin (args.tail.headD .null) (args'.tail.headD .null) := by
    cases hargs with
    | nil => exact .refl _
    | cons _ hargs => exact kin_headD hargs .null
  unfold Eval.callHost
  generalize args.headD .null = v at harg
  generalize args'.headD .null = v' at harg
  cases op with
  | clock =>
    refine Ensues.tick.bind fun ht => ?_
    subst ht
    exact .pure (.refl _)
  | double =>
    have refused : Ensues (Eval.fail 0 (.cannotDouble v.text) : Eval Value)
        (fun _ => Eval.fail 0 (.cannotDouble v'.text)) Value.Kin := by
      rw [harg.resembles.text_eq]
      exact .fail _ _
    cases harg with
    | plain => cases v with
      | number => exact .pure (.refl _)
      | _ => exact refused
    | _ => exact refused
  | typeName => exact .pure (harg.resembles.typeOf_eq ▸ .refl _)
  | text => exact .pure (harg.resembles.text_eq ▸ .refl _)
  | number =>
    dsimp only
    rw [harg.resembles.operand_eq]
    exact (Ensues.ofExcept (.refl (fun _ => rfl) _)).bind fun hn => .pure (hn ▸ .refl _)
  | arity =>
    cases harg with
    | plain hp =>
      cases v with
      | callable => exact hp.elim
      | _ => exact .fail _ _
    | callable hc => exact .pure (hc.resembles.arity_eq ▸ .refl _)
    | object => exact .fail _ _
  | apply =>
    cases harg with
    | plain hp =>
      cases v with
      | callable => exact hp.elim
      | _ => exact .fail _ _
    | callable hc => exact ih.call hc (.cons hnext .nil)
    | object => exact .fail _ _
  | names =>
    refine .get fun hm => ?_
    rw [hm.globalNames_eq]
    exact .pure (.refl _)
  | nested =>
    dsimp only
    rw [harg.resembles.text_eq]
    exact (ih.run _).bind fun _ => .pure (.refl _)
  | idle => exact .pure (.refl _)
  | custom key => exact (Ensues.hear (.called hargs)).bind fun _ => ih.converse

theorem converse_succ :
    Ensues (Eval.converse (k + 1)) (fun n => Eval.converse (n + 1)) Value.Kin := by
  unfold Eval.converse
  refine .get fun {m m'} hm => ?_
  have moves := hm.blind m.heard m'.heard hm.heard
  rw [hm.host]
  generalize m.host m.heard = move at moves
  generalize m.host m'.heard = move' at moves
  cases moves with
  | done h => exact .ofExcept h
  | call hc hargs =>
    exact (ih.call hc hargs).attempt.bind fun hr => (Ensues.hear (.answered hr)).bind
      fun _ => ih.converse
  | run =>
    refine (ih.run _).attempt.bind fun {r r'} hr => ?_
    have same : r' = r := by cases hr <;> rfl
    rw [same]
    exact (Ensues.hear .ran).bind fun _ => ih.converse

theorem execute_succ {s s' : Stmt} (h : Recast Eq (.stmt s) (.stmt s')) :
    Ensues (Eval.execute (k + 1) s) (fun n => Eval.execute n s') Completion.Kin := by
  cases h with
  | expression he => exact .later 1 ((ih.evaluate he).bind fun _ => .pure .normal)
  | print he =>
    refine .later 1 ((ih.evaluate he).bind fun hv => ?_)
    rw [hv.resembles.text_eq]
    exact (Ensues.print _).bind fun _ => .pure .normal
  | «let» hv =>
    exact .later 1 ((ih.evaluateOpt hv).bind fun hv =>
      (Ensues.define _ (kin_getD hv _)).bind fun _ => .pure .normal)
  | block hbody =>
    refine .later 1 (.get fun hm => ?_)
    rw [hm.scope]
    exact .inside Bindings.kin_empty (ih.executeAll hbody)
  | «if» hc hy hn =>
    refine .later 1 ((ih.evaluate hc).bind fun hv => ?_)
    rw [hv.resembles.isTruthy_eq]
    split
    · exact ih.execute hy
    · cases hn with
      | noAlternative => exact .pure .normal
      | alternative hs => exact ih.execute hs
  | «while» hc hbody => exact .later 1 (ih.loop hc .absent hbody)
  | «for» hv hc hstep hbody =>
    refine .later 1 (.get fun hm => ?_)
    rw [hm.scope]
    exact .inside Bindings.kin_empty ((ih.evaluateOpt hv).bind fun hv =>
      (Ensues.define _ (kin_getD hv _)).bind fun _ => ih.loop hc hstep hbody)
  | forBlock hv hc hbody =>
    -- the block spends fuel on its list of statements before it goes round
    refine .later 4 ?_
    simp only [execute_block_while]
    refine .get fun hm => ?_
    rw [hm.scope]
    exact .inside Bindings.kin_empty (((ih.evaluateOpt hv).sooner 1).bind fun hv =>
      (Ensues.define _ (kin_getD hv _)).bind fun _ => ih.loop hc .absent hbody)
  | blockFor hv hc hbody =>
    -- what the block does with its fuel is clear only if there is enough of it to go round
    have more := (extending (Nat.le_add_right (k + 1) 3)).execute
    refine .of_extends (more _) (.later 1 ?_)
    rw [execute_block_while]
    refine .get fun hm => ?_
    rw [hm.scope]
    exact .inside Bindings.kin_empty ((Ensues.later 1 (ih.evaluateOpt_succ hv)).bind fun hv =>
      (Ensues.define _ (kin_getD hv _)).bind fun _ => ih.loop (c := some _) hc .absent hbody)
  | «break» => exact .later 1 (.pure .broken)
  | «continue» => exact .later 1 (.pure .continued)
  | «return» hv =>
    exact .later 1 ((ih.evaluateOpt hv).bind fun hv => .pure (.returned (kin_getD hv _)))
  | struct hmethods =>
    exact .later 1 ((Ensues.declareStruct _ hmethods).bind fun _ => .pure .normal)

theorem executeAll_succ {ss ss' : List Stmt} (h : Recast Eq (.stmts ss) (.stmts ss')) :
    Ensues (Eval.executeAll (k + 1) ss) (fun n => Eval.executeAll (n + 1) ss') Completion.Kin := by
  cases h with
  | noStmts => exact .pure .normal
  | stmts hs hss =>
    refine (ih.execute hs).bind fun hcompletion => ?_
    cases hcompletion with
    | normal => exact ih.executeAll hss
    | broken => exact .pure .broken
    | continued => exact .pure .continued
    | returned hv => exact .pure (.returned hv)

theorem loop_succ {c c' step step' : Option Expr} {body body' : Stmt}
    (hc : Recast Eq (.expr (Expr.guard c)) (.expr (Expr.guard c')))
    (hstep : Recast Eq (.optional step) (.optional step'))
    (hbody : Recast Eq (.stmt body) (.stmt body')) :
    Ensues (Eval.loop (k + 1) c step body) (fun n => Eval.loop (n + 1) c' step' body')
      Completion.Kin := by
  simp only [Eval.loop_succ]
  refine (ih.condition hc).bind fun hv => ?_
  rw [hv.resembles.isTruthy_eq]
  split
  · have again := (ih.evaluateOpt hstep).bind fun _ => ih.loop hc hstep hbody
    refine (ih.execute hbody).bind fun hcompletion => ?_
    cases hcompletion with
    | broken => exact .pure .normal
    | returned hv => exact .pure (.returned hv)
    | normal | continued => exact again
  · exact .pure .normal

theorem interpret_succ {ss ss' : List Stmt} (h : Recast Eq (.stmts ss) (.stmts ss')) :
    Ensues (Eval.interpret (k + 1) ss) (fun n => Eval.interpret (n + 1) ss') fun _ _ => True := by
  cases h with
  | noStmts => exact .flush
  | stmts hs hss =>
    refine (ih.execute hs).bind fun hcompletion => .bind (Q := fun _ _ => True) ?_
      fun _ => ih.interpret hss
    cases hcompletion with
    | normal => exact .pure trivial
    | broken | continued | returned => exact .fail _ _

theorem run_succ (source : String) :
    Ensues (Eval.run (k + 1) source) (fun n => Eval.run (n + 1) source) fun _ _ => True := by
  refine (Ensues.load source).bind fun h => ?_
  subst h
  exact ih.interpret (Stmt.recastAll_refl _)

theorem succ : Pursued (k + 1) where
  evaluate h := .later 1 (ih.evaluate_succ h)
  evaluateAll h := .later 1 (ih.evaluateAll_succ h)
  evaluateOpt h := .later 1 (ih.evaluateOpt_succ h)
  condition h := .later 1 (ih.condition_succ h)
  call hc hargs := .later 1 (ih.call_succ hc hargs)
  callHost hargs := .later 1 (ih.callHost_succ hargs)
  converse := .later 1 ih.converse_succ
  execute h := ih.execute_succ h
  executeAll h := .later 1 (ih.executeAll_succ h)
  loop hc hstep hbody := .later 1 (ih.loop_succ hc hstep hbody)
  interpret h := .later 1 (ih.interpret_succ h)
  run source := .later 1 (ih.run_succ source)

end Pursued

/-- **Whatever is run of a program, it ensues for a recast program.** -/
theorem pursued : ∀ k, Pursued k
  | 0 => pursued_zero
  | k + 1 => (pursued k).succ

/-! ## Programs -/

/-- A program and a recast program are accepted or refused in the same way, and run alike. -/
theorem submit_pursued {program program' : List Stmt}
    (h : Recast Eq (.stmts program) (.stmts program')) (k : Nat) :
    Ensues (submit k program) (fun n => submit n program') fun _ _ => True := by
  refine .get fun {m m'} hm => ?_
  have accepted : resolve m'.globalNames program' = resolve m.globalNames program := by
    rw [hm.globalNames_eq, h.resolve_program]
  rw [accepted]
  refine (Ensues.same _).bind fun {ds ds'} hds => .bind (Ensues.change fun _ _ hm => ?_)
    fun _ => (pursued k).interpret h
  exact { hm with distances := by rw [hds, hm.distances] }

/-- **Two computations cannot be told apart on a machine**: what one of them comes to, the other
    one comes to as well, with results that are related, on machines that are kin. -/
structure Indistinct (acts acts' : Nat → Eval α) (Q : α → α → Prop) (m : Machine) : Prop where
  forth : ∀ n o, acts n m = some o → ∃ n' o', acts' n' m = some o' ∧ Outcomes Q o o'
  back : ∀ n' o', acts' n' m = some o' → ∃ n o, acts n m = some o ∧ Outcomes Q o o'

theorem Ensues.indistinct {acts acts' : Nat → Eval α} {Q Q' : α → α → Prop} {m : Machine}
    (hm : m.host.Blind) (more : ∀ {k n}, k ≤ n → Extends (acts' k) (acts' n))
    (h : ∀ k, Ensues (acts k) acts' Q) (h' : ∀ k, Ensues (acts' k) acts Q') :
    Indistinct acts acts' Q m where
  forth n o ho := by
    obtain ⟨o', ⟨N, hN⟩, ho'⟩ := h n (.refl hm) ho
    exact ⟨N, o', hN N (le_refl N), ho'⟩
  back n' o' ho' := by
    -- where the second one ends the first one does too, and for that the second one has an
    -- outcome that is related: with fuel enough it is the outcome that it had
    obtain ⟨o, ⟨N, hN⟩, -⟩ := h' n' (.refl hm) ho'
    obtain ⟨o'', ⟨K, hK⟩, ho''⟩ := h N (.refl hm) (hN N (le_refl N))
    have same := hK (max n' K) (le_max_right n' K)
    rw [more (le_max_left n' K) m o' ho'] at same
    cases same
    exact ⟨N, o, hN N (le_refl N), ho''⟩

/-- So it is with the texts of such programs, on a machine that parses both. -/
theorem run_indistinct {m m₁ : Machine} {source source' : String} {program program' : List Stmt}
    (hm : m.host.Blind) (h : parseText source m = some (.ok program, m₁))
    (h' : parseText source' m = some (.ok program', m₁))
    (hr : Recast Eq (.stmts program) (.stmts program')) :
    Indistinct (fun n => run n source) (fun n => run n source') (fun _ _ => True) m := by
  have blind : m₁.host.Blind := by
    obtain ⟨site, -, rfl, -, -⟩ := parseText_eq h
    exact hm
  have more {k n : Nat} (hle : k ≤ n) : Extends (submit k program') (submit n program') :=
    .next fun _ => .next fun _ => .next fun _ => (extending hle).interpret program'
  have runs := Ensues.indistinct blind more (submit_pursued hr) (submit_pursued (hr.symm Eq.symm))
  have loaded {source : String} {program : List Stmt}
      (h : parseText source m = some (.ok program, m₁)) (n : Nat) :
      run (n + 1) source m = submit n program m₁ := by
    rw [run_eq_submit, bind_apply, h]
  constructor
  · intro n o ho
    cases n with
    | zero => cases ho
    | succ n =>
      obtain ⟨n', o', ho', houtcomes⟩ := runs.forth n o ((loaded h n).symm.trans ho)
      exact ⟨n' + 1, o', (loaded h' n').trans ho', houtcomes⟩
  · intro n' o' ho'
    cases n' with
    | zero => cases ho'
    | succ n' =>
      obtain ⟨n, o, ho, houtcomes⟩ := runs.back n' o' ((loaded h' n').symm.trans ho')
      exact ⟨n + 1, o, (loaded h n).trans ho, houtcomes⟩

end Eval

/-! ## What can be seen of it -/

/-- The tokens of a `for` without a step, and those of the block. -/
theorem Derives.loop {strict bare : Bool} {key left word semicolon right brace key' brace' : Token}
    {name : Name} {value : Option Expr} {c : Expr} {body : Stmt} {ts us vs : List Token}
    (hkey : key.kind = .for) (hleft : left.kind = .leftParen) (hword : word.kind = .let)
    (hsemicolon : semicolon.kind = .semicolon) (hright : right.kind = .rightParen)
    (hbrace : brace.kind = .leftBrace) (hkey' : key'.kind = .while)
    (hbrace' : brace'.kind = .rightBrace) (hvalue : Derives strict (.binding name value) ts)
    (hc : Derives strict (.expression c) us) (hbody : Derives strict (.statement bare body) vs) :
    Derives strict (.statement bare (.for name value (some c) none body))
        (key :: left :: word :: (ts ++ (us ++ semicolon :: right :: vs))) ∧
      Derives strict (.statement bare (.for name value none none body))
        (key :: left :: word :: (ts ++ semicolon :: right :: vs)) ∧
      Derives strict (.statement false (.block [.let name value, .while c body]))
        (brace :: word :: (ts ++ key' :: left :: (us ++ right :: (vs ++ [brace'])))) := by
  refine ⟨.for hkey hleft hword hvalue (.someExpression hc) hsemicolon .noExpression hright hbody,
    .for hkey hleft hword hvalue .noExpression hsemicolon .noExpression hright hbody, ?_⟩
  have ended : ¬(frontToken []).kind.Joins := by
    rintro ⟨level, op, hop⟩
    cases level <;> cases hop
  have loop : Derives strict (.declarations [.let name value, .while c body])
      (word :: ts ++ (key' :: left :: (us ++ right :: vs) ++ [])) :=
    .cons (.let hword hvalue) (.cons (.statement (.while hkey' hleft hc hright hbody)) .nil
      fun _ _ => ended) fun _ h => nomatch h
  simpa using Derives.block hbrace loop hbrace'

/-- What needs no operators to be read is an expression. -/
theorem Derives.expression_of_primary {strict : Bool} {e : Expr} {ts : List Token}
    (h : Derives strict (.primary e) ts) : Derives strict (.expression e) ts := by
  have product : Derives strict (.operand .product e) ts := .tightest rfl (.noFunction (.noCall h))
  have sum : Derives strict (.operand .sum e) ts := .tighter rfl (.first product)
  have comparison : Derives strict (.operand .comparison e) ts := .tighter rfl (.first sum)
  have equality : Derives strict (.operand .equality e) ts := .tighter rfl (.first comparison)
  have conjunction : Derives strict (.operand .and e) ts := .tighter rfl (.first equality)
  exact .noAssignment (.noChoice (.first (.tighter rfl (.first conjunction))))

/-- **A `for` without a step is a block with a `while`.**

    * The tokens of one are those of the other in another order, with braces in place of the
      semicolon; without a condition the `while` has the condition `true`.
    * Two texts that differ in nothing else, as far as their trees show, have the same sites when
      they are parsed on the same machine.
    * The walk takes their parts for the same, wherever it comes to them: both are accepted with the
      same distances, or refused with the same error.
    * From every machine the two statements end in the same way, on the same machine, or not at
      all; so do a `for` without a condition and one with the condition `true`.
    * In whatever they stand, functions and methods included, and whatever is done with these, it
      cannot be told by a host that does not look into functions. -/
theorem loops_interchange :
    (∀ (strict bare : Bool) (key left word semicolon right brace key' brace' : Token) (name : Name)
      (value : Option Expr) (c : Expr) (body : Stmt) (ts us vs : List Token),
      key.kind = .for → left.kind = .leftParen → word.kind = .let → semicolon.kind = .semicolon →
      right.kind = .rightParen → brace.kind = .leftBrace → key'.kind = .while →
      brace'.kind = .rightBrace → Derives strict (.binding name value) ts →
      Derives strict (.expression c) us → Derives strict (.statement bare body) vs →
      Derives strict (.statement bare (.for name value (some c) none body))
        (key :: left :: word :: (ts ++ (us ++ semicolon :: right :: vs))) ∧
      Derives strict (.statement bare (.for name value none none body))
        (key :: left :: word :: (ts ++ semicolon :: right :: vs)) ∧
      Derives strict (.statement false (.block [.let name value, .while c body]))
        (brace :: word :: (ts ++ key' :: left :: (us ++ right :: (vs ++ [brace']))))) ∧
    (∀ (m m₁ m₂ : Machine) (source source' : String) (program program' : List Stmt),
      Eval.parseText source m = some (.ok program, m₁) →
      Eval.parseText source' m = some (.ok program', m₂) →
      Recast (fun _ _ => True) (.stmts program) (.stmts program') →
      m₂ = m₁ ∧ Recast Eq (.stmts program) (.stmts program') ∧
      (m.host.Blind → Eval.Indistinct (fun n => Eval.run n source) (fun n => Eval.run n source')
        (fun _ _ => True) m)) ∧
    (∀ p q : Part, Recast Eq p q → ∀ w, p.resolve w = q.resolve w) ∧
    (∀ program program' : List Stmt, Recast Eq (.stmts program) (.stmts program') →
      ∀ globals, resolve globals program = resolve globals program') ∧
    (∀ (name : Name) (value c : Option Expr) (body : Stmt),
      Recast Eq (.stmt (.for name value c none body))
        (.stmt (.block [.let name value, .while (Expr.guard c) body])) ∧
      Eval.Same (.for name value c none body)
        (.block [.let name value, .while (Expr.guard c) body])) ∧
    (∀ (name : Name) (value step : Option Expr) (body : Stmt),
      Recast Eq (.stmt (.for name value none step body))
        (.stmt (.for name value (some (.literal (.bool true))) step body)) ∧
      Eval.Same (.for name value none step body)
        (.for name value (some (.literal (.bool true))) step body)) ∧
    ∀ (m : Machine) (s s' : Stmt), m.host.Blind → Recast Eq (.stmt s) (.stmt s') →
      Eval.Indistinct (fun n => Eval.execute n s) (fun n => Eval.execute n s')
        Completion.Kin m := by
  refine ⟨?_, ?_, fun _ _ h => h.resolve_eq, fun _ _ h => h.resolve_program, ?_, ?_, ?_⟩
  · intro strict bare key left word semicolon right brace key' brace' name value c body ts us vs
      hkey hleft hword hsemicolon hright hbrace hkey' hbrace' hvalue hc hbody
    exact Derives.loop hkey hleft hword hsemicolon hright hbrace hkey' hbrace' hvalue hc hbody
  · intro m m₁ m₂ source source' program program' h h' hr
    obtain ⟨rfl, hexact⟩ := Eval.parseText_recast h h' hr
    exact ⟨rfl, hexact, fun hm => Eval.run_indistinct hm h h' hexact⟩
  · exact fun name value c body =>
      ⟨.forBlock (Expr.recastOpt_refl value) (Expr.recast_refl _) body.recast_refl,
        Eval.for_same_block name value c body⟩
  · exact fun name value step body =>
      ⟨.for (Expr.recastOpt_refl value) .literal (Expr.recastOpt_refl step) body.recast_refl,
        Eval.for_same_true name value step body⟩
  · intro m s s' hm h
    exact Eval.Ensues.indistinct hm (fun hle => (Eval.extending hle).execute s')
      (fun k => (Eval.pursued k).execute h) fun k => (Eval.pursued k).execute (h.symm Eq.symm)

theorem relay_blind : relay.Blind := by
  intro heard heard' h
  unfold relay
  cases h with
  | nil => exact .done (.ok (.refl _))
  | cons hevent _ =>
    cases hevent with
    | answered hr => exact .done hr
    | ran => exact .done (.ok (.refl _))
    | called hargs =>
      cases hargs with
      | nil => exact .done (.ok (.refl _))
      | @cons v _ _ _ hv hargs =>
        cases hv with
        | plain hp =>
          cases v with
          | callable => exact hp.elim
          | _ => exact .done (.ok (.refl _))
        | callable hc => exact .call hc hargs
        | object => exact .done (.ok (.refl _))

/-- `for (let i = true; i;) i = null;` -/
def onceFor : Stmt :=
  .for ⟨"i", 1⟩ (some (.literal (.bool true))) (some (.variable 0 ⟨"i", 1⟩)) none
    (.expression (.assign 2 ⟨"i", 1⟩ (.literal .null)))

/-- The block with the `while`. -/
def onceWhile : Stmt :=
  .block [.let ⟨"i", 1⟩ (some (.literal (.bool true))),
    .while (.variable 0 ⟨"i", 1⟩) (.expression (.assign 2 ⟨"i", 1⟩ (.literal .null)))]

/-- A loop in a function, which is called. -/
def enclosed (loop : Stmt) : List Stmt :=
  [.expression (.function (.mk (some ⟨"f", 1⟩) [] [loop] 1)),
    .print (.call (.variable 3 ⟨"f", 1⟩) 1 [])]

theorem once_recast {same : Nat → Nat → Prop} (hs : ∀ s, same s s) :
    Recast same (.stmt onceFor) (.stmt onceWhile) :=
  .forBlock (.present .literal) (.variable (hs 0)) (.expression (.assign .literal (hs 2)))

theorem enclosed_recast {same : Nat → Nat → Prop} (hs : ∀ s, same s s) :
    Recast same (.stmts (enclosed onceFor)) (.stmts (enclosed onceWhile)) :=
  .stmts (.expression (.function (.body (.stmts (once_recast hs) .noStmts))))
    (.stmts (.print (.call (.variable (hs 3)) .noExprs)) .noStmts)

theorem loops_interchange_once :
    ∃ m : Machine,
      Eval.parseText "fn f() \x7b for (let i = true; i;) i = null; \x7d print f();"
        (Session.start [] relay {} 0) = some (.ok (enclosed onceFor), m) ∧
      Eval.parseText "fn f() \x7b \x7b let i = true; while (i) i = null; \x7d \x7d print f();"
        (Session.start [] relay {} 0) = some (.ok (enclosed onceWhile), m) ∧
      Eval.Indistinct
        (fun n => Eval.run n "fn f() \x7b for (let i = true; i;) i = null; \x7d print f();")
        (fun n => Eval.run n
          "fn f() \x7b \x7b let i = true; while (i) i = null; \x7d \x7d print f();")
        (fun _ _ => True) (Session.start [] relay {} 0) ∧
      resolve [] (enclosed onceFor) = resolve [] (enclosed onceWhile) ∧
      Eval.Same onceFor onceWhile ∧
      Eval.Indistinct (fun n => Eval.execute n onceFor) (fun n => Eval.execute n onceWhile)
        Completion.Kin m ∧
      Derives true (.statement false onceWhile)
        [⟨.leftBrace, "\x7b", 1⟩, ⟨.let, "let", 1⟩, ⟨.identifier, "i", 1⟩, ⟨.equal, "=", 1⟩,
          ⟨.true, "true", 1⟩, ⟨.semicolon, ";", 1⟩, ⟨.while, "while", 1⟩, ⟨.leftParen, "(", 1⟩,
          ⟨.identifier, "i", 1⟩, ⟨.rightParen, ")", 1⟩, ⟨.identifier, "i", 1⟩, ⟨.equal, "=", 1⟩,
          ⟨.null, "null", 1⟩, ⟨.semicolon, ";", 1⟩, ⟨.rightBrace, "\x7d", 1⟩] := by
  obtain ⟨tokens, texts, -, programs, statements, -, contexts⟩ := loops_interchange
  have parsed : Eval.parseText "fn f() \x7b for (let i = true; i;) i = null; \x7d print f();"
      (Session.start [] relay {} 0) =
        some (.ok (enclosed onceFor), { Session.start [] relay {} 0 with nextSite := 4 }) := by
    rw [Eval.parseText_apply, Scriptling.tokens, scan_eq]
    cbv
  have parsed' : Eval.parseText
      "fn f() \x7b \x7b let i = true; while (i) i = null; \x7d \x7d print f();"
      (Session.start [] relay {} 0) =
        some (.ok (enclosed onceWhile), { Session.start [] relay {} 0 with nextSite := 4 }) := by
    rw [Eval.parseText_apply, Scriptling.tokens, scan_eq]
    cbv
  obtain ⟨-, recast, runs⟩ :=
    texts _ _ _ _ _ _ _ parsed parsed' (enclosed_recast fun _ => trivial)
  refine ⟨_, parsed, parsed', runs relay_blind, programs _ _ recast [],
    (statements _ _ (some (.variable 0 ⟨"i", 1⟩)) _).2,
    contexts _ _ _ relay_blind (once_recast fun _ => rfl), ?_⟩
  have value : Derives true (.binding ⟨"i", 1⟩ (some (.literal (.bool true))))
      [⟨.identifier, "i", 1⟩, ⟨.equal, "=", 1⟩, ⟨.true, "true", 1⟩, ⟨.semicolon, ";", 1⟩] :=
    @Derives.initialized true ⟨.identifier, "i", 1⟩ ⟨.equal, "=", 1⟩ ⟨.semicolon, ";", 1⟩ _ _ rfl
      rfl (.expression_of_primary (.constant rfl)) rfl
  have condition : Derives true (.expression (.variable 0 ⟨"i", 1⟩)) [⟨.identifier, "i", 1⟩] :=
    .expression_of_primary (@Derives.reference true ⟨.identifier, "i", 1⟩ 0 rfl)
  have body : Derives true (.statement false (.expression (.assign 2 ⟨"i", 1⟩ (.literal .null))))
      [⟨.identifier, "i", 1⟩, ⟨.equal, "=", 1⟩, ⟨.null, "null", 1⟩, ⟨.semicolon, ";", 1⟩] :=
    .expression (@Derives.assign true ⟨.identifier, "i", 1⟩ ⟨.equal, "=", 1⟩ 2 _ _ rfl rfl
      (.expression_of_primary (.constant rfl))) rfl
  exact (tokens true false ⟨.for, "for", 1⟩ ⟨.leftParen, "(", 1⟩ ⟨.let, "let", 1⟩
    ⟨.semicolon, ";", 1⟩ ⟨.rightParen, ")", 1⟩ ⟨.leftBrace, "\x7b", 1⟩ ⟨.while, "while", 1⟩
    ⟨.rightBrace, "\x7d", 1⟩ _ _ _ _ _ _ _ rfl rfl rfl rfl rfl rfl rfl rfl value condition body).2.2

end Scriptling
