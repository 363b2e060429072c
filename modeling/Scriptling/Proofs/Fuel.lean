/-
  Fuel — more fuel changes no outcome.

  * `Eval.Extends`: a computation ends as another one does, if that one ends; this composes
    (`Extends.bind`);
  * `Eval.extending`: everything that is run with more fuel so extends what it is with less.
-/
import Scriptling.Evaluation

namespace Scriptling.Eval

variable {α β : Type}

/-- **Wherever a computation ends, another one ends in the same way.** -/
def Extends (act act' : Eval α) : Prop := ∀ m x, act m = some x → act' m = some x

/-! ## Composition -/

theorem Extends.refl (act : Eval α) : Extends act act := fun _ _ h => h

theorem Extends.exhausted (act : Eval α) : Extends Eval.exhausted act := fun _ _ h => nomatch h

theorem Extends.bind {act act' : Eval α} {f f' : α → Eval β} (h : Extends act act')
    (hf : ∀ a, Extends (f a) (f' a)) : Extends (act >>= f) (act' >>= f') := by
  intro m x hx
  rw [bind_apply] at hx ⊢
  rcases hact : act m with _ | ⟨_ | a, m₁⟩
  · rw [hact] at hx; cases hx
  · rw [hact] at hx
    rw [h m _ hact]
    exact hx
  · rw [hact] at hx
    rw [h m _ hact]
    exact hf a m₁ x hx

/-- Only what comes next has more fuel. -/
theorem Extends.next {act : Eval α} {f f' : α → Eval β} (hf : ∀ a, Extends (f a) (f' a)) :
    Extends (act >>= f) (act >>= f') := (Extends.refl act).bind hf

/-- Only what comes first has more fuel. -/
theorem Extends.first {act act' : Eval α} {f : α → Eval β} (h : Extends act act') :
    Extends (act >>= f) (act' >>= f) := h.bind fun _ => .refl _

theorem Extends.within {scope : Chain} {act act' : Eval α} (h : Extends act act') :
    Extends (Eval.within scope act) (Eval.within scope act') := by
  intro m x hx
  unfold Eval.within at hx ⊢
  split at hx
  · cases hx
  · next _ hact => rw [h _ _ hact]; exact hx

theorem Extends.attempt {act act' : Eval α} (h : Extends act act') :
    Extends (Eval.attempt act) (Eval.attempt act') := by
  intro m x hx
  unfold Eval.attempt at hx ⊢
  split at hx
  · cases hx
  · next _ hact => rw [h _ _ hact]; exact hx

/-! ## The evaluation -/

/-- Everything that is run with more fuel extends what it is with less. -/
structure Extending (k n : Nat) : Prop where
  evaluate e : Extends (Eval.evaluate k e) (Eval.evaluate n e)
  evaluateAll es : Extends (Eval.evaluateAll k es) (Eval.evaluateAll n es)
  evaluateOpt e : Extends (Eval.evaluateOpt k e) (Eval.evaluateOpt n e)
  call c args : Extends (Eval.call k c args) (Eval.call n c args)
  callHost op args : Extends (Eval.callHost k op args) (Eval.callHost n op args)
  converse : Extends (Eval.converse k) (Eval.converse n)
  execute s : Extends (Eval.execute k s) (Eval.execute n s)
  executeAll ss : Extends (Eval.executeAll k ss) (Eval.executeAll n ss)
  loop condition step body :
    Extends (Eval.loop k condition step body) (Eval.loop n condition step body)
  interpret ss : Extends (Eval.interpret k ss) (Eval.interpret n ss)
  run source : Extends (Eval.run k source) (Eval.run n source)

theorem extending_zero (n : Nat) : Extending 0 n where
  evaluate _ := .exhausted _
  evaluateAll _ := .exhausted _
  evaluateOpt _ := .exhausted _
  call _ _ := .exhausted _
  callHost _ _ := .exhausted _
  converse := .exhausted _
  execute _ := .exhausted _
  executeAll _ := .exhausted _
  loop _ _ _ := .exhausted _
  interpret _ := .exhausted _
  run _ := .exhausted _

namespace Extending

variable {k n : Nat} (ih : Extending k n)
include ih

theorem evaluate_succ (e : Expr) :
    Extends (Eval.evaluate (k + 1) e) (Eval.evaluate (n + 1) e) := by
  unfold Eval.evaluate
  cases e with
  | literal | «variable» | this | function => exact .refl _
  | group e => exact ih.evaluate e
  | unary op line e => exact .first (ih.evaluate e)
  | binary op line l r => exact (ih.evaluate l).bind fun a => .first (ih.evaluate r)
  | logical op l r =>
    refine (ih.evaluate l).bind fun a => ?_
    split
    · exact .refl _
    · exact ih.evaluate r
  | ternary c y n =>
    refine (ih.evaluate c).bind fun v => ?_
    split
    · exact ih.evaluate y
    · exact ih.evaluate n
  | assign site name value => exact .first (ih.evaluate value)
  | call callee line arguments =>
    refine (ih.evaluate callee).bind fun f => (ih.evaluateAll arguments).bind fun args => ?_
    split
    · split
      · exact ih.call _ args
      · exact .refl _
    · exact .refl _
  | get object name => exact .first (ih.evaluate object)
  | set object name value =>
    refine (ih.evaluate object).bind fun o => ?_
    split
    · exact .first (ih.evaluate value)
    · exact .refl _

theorem evaluateAll_succ (es : List Expr) :
    Extends (Eval.evaluateAll (k + 1) es) (Eval.evaluateAll (n + 1) es) := by
  cases es with
  | nil => exact .refl _
  | cons e es => exact (ih.evaluate e).bind fun v => .first (ih.evaluateAll es)

theorem evaluateOpt_succ (e : Option Expr) :
    Extends (Eval.evaluateOpt (k + 1) e) (Eval.evaluateOpt (n + 1) e) := by
  cases e with
  | none => exact .refl _
  | some e => exact .first (ih.evaluate e)

theorem call_succ (c : Callable) (args : List Value) :
    Extends (Eval.call (k + 1) c args) (Eval.call (n + 1) c args) := by
  cases c with
  | closure c => exact .next fun scope => .first (ih.executeAll c.function.body).within
  | struct t => exact .refl _
  | native f => exact ih.callHost f.operation args

theorem callHost_succ (op : HostOperation) (args : List Value) :
    Extends (Eval.callHost (k + 1) op args) (Eval.callHost (n + 1) op args) := by
  unfold Eval.callHost
  cases op with
  | apply =>
    dsimp only
    split
    · exact ih.call _ _
    · exact .refl _
  | nested => exact .first (ih.run _)
  | custom key => exact .next fun _ => ih.converse
  | _ => exact .refl _

theorem converse_succ : Extends (Eval.converse (k + 1)) (Eval.converse (n + 1)) := by
  unfold Eval.converse
  refine .next fun m => ?_
  split
  · exact .refl _
  · exact (ih.call _ _).attempt.bind fun outcome => .next fun _ => ih.converse
  · exact (ih.run _).attempt.bind fun outcome => .next fun _ => ih.converse

theorem execute_succ (s : Stmt) :
    Extends (Eval.execute (k + 1) s) (Eval.execute (n + 1) s) := by
  unfold Eval.execute
  cases s with
  | expression e => exact .first (ih.evaluate e)
  | print e => exact .first (ih.evaluate e)
  | «let» name value => exact .first (ih.evaluateOpt value)
  | block body => exact .next fun m => .next fun scope => (ih.executeAll body).within
  | «if» condition yes no =>
    refine (ih.evaluate condition).bind fun v => ?_
    split
    · exact ih.execute yes
    · cases no with
      | none => exact .refl _
      | some s => exact ih.execute s
  | «while» condition body => exact ih.loop _ _ body
  | «for» name value condition step body =>
    exact .next fun m => .next fun scope => ((ih.evaluateOpt value).bind fun v =>
      .next fun _ => ih.loop condition step body).within
  | «break» | «continue» | struct => exact .refl _
  | «return» line value => exact .first (ih.evaluateOpt value)

theorem executeAll_succ (ss : List Stmt) :
    Extends (Eval.executeAll (k + 1) ss) (Eval.executeAll (n + 1) ss) := by
  cases ss with
  | nil => exact .refl _
  | cons s ss =>
    refine (ih.execute s).bind fun c => ?_
    split
    · exact ih.executeAll ss
    · exact .refl _

theorem loop_succ (condition step : Option Expr) (body : Stmt) :
    Extends (Eval.loop (k + 1) condition step body) (Eval.loop (n + 1) condition step body) := by
  unfold Eval.loop
  refine (ih.evaluateOpt condition).bind fun v => ?_
  split
  · refine (ih.execute body).bind fun c => ?_
    split
    · exact .refl _
    · exact .refl _
    · exact (ih.evaluateOpt step).bind fun _ => ih.loop condition step body
  · exact .refl _

theorem interpret_succ (ss : List Stmt) :
    Extends (Eval.interpret (k + 1) ss) (Eval.interpret (n + 1) ss) := by
  cases ss with
  | nil => exact .refl _
  | cons s ss => exact (ih.execute s).bind fun c => .next fun _ => ih.interpret ss

theorem run_succ (source : String) :
    Extends (Eval.run (k + 1) source) (Eval.run (n + 1) source) :=
  .next fun program => ih.interpret program

theorem succ : Extending (k + 1) (n + 1) where
  evaluate := ih.evaluate_succ
  evaluateAll := ih.evaluateAll_succ
  evaluateOpt := ih.evaluateOpt_succ
  call := ih.call_succ
  callHost := ih.callHost_succ
  converse := ih.converse_succ
  execute := ih.execute_succ
  executeAll := ih.executeAll_succ
  loop := ih.loop_succ
  interpret := ih.interpret_succ
  run := ih.run_succ

end Extending

/-- **More fuel changes no outcome.** -/
theorem extending {k n : Nat} (h : k ≤ n) : Extending k n := by
  induction k generalizing n with
  | zero => exact extending_zero n
  | succ k ih =>
    cases n with
    | zero => exact absurd h (Nat.not_succ_le_zero k)
    | succ n => exact (ih (Nat.le_of_succ_le_succ h)).succ

end Scriptling.Eval
