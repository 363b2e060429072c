/-
  Loops — a `for` without a step, and the block with a `while` that it stands for.

  * `Eval.execute_block_while`: what the block does, step by step: that is what the `for` does;
  * `Eval.Same`: two statements that end in the same ways from every machine;
  * `Eval.for_same_block`, `Eval.for_same_true`: so do the `for` and the block, and a `for` without
    a condition and one with the condition `true`.
-/
import Scriptling.Proofs.Fuel
import Scriptling.Proofs.Recasts

namespace Scriptling.Eval

/-! ## What the block does -/

/-- The block declares the variable in a scope of its own and goes round the loop there. -/
theorem execute_block_while (n : Nat) (name : Name) (value : Option Expr) (c : Expr)
    (body : Stmt) :
    execute (n + 4) (.block [.let name value, .while c body]) = (do
      let scope ← newScope (← get).scope .empty
      within scope do
        let v ← evaluateOpt (n + 1) value
        define name.text (v.getD .null)
        loop n (some c) none body) := by
  have rounds : executeAll (n + 2) [.while c body] = loop n (some c) none body := by
    rw [executeAll, execute]
    refine Eq.trans (bind_congr fun completion => ?_) (bind_pure _)
    cases completion <;> rfl
  have entered : executeAll (n + 3) [.let name value, .while c body] = (do
      let v ← evaluateOpt (n + 1) value
      define name.text (v.getD .null)
      loop n (some c) none body) := by
    rw [executeAll, execute]
    simp only [bind_assoc, pure_bind, rounds]
  rw [execute, entered]

/-! ## Conditions -/

/-- The condition of a loop is evaluated. -/
def condition (n : Nat) (c : Option Expr) : Eval Value :=
  evaluateOpt n c >>= fun v => pure (v.getD (.bool true))

theorem loop_succ (n : Nat) (c step : Option Expr) (body : Stmt) :
    loop (n + 1) c step body = condition n c >>= fun v =>
      if v.isTruthy then do
        match ← execute n body with
        | .broken _ => pure .normal
        | .returned v => pure (.returned v)
        | _ =>
          let _ ← evaluateOpt n step
          loop n c step body
      else pure .normal := by
  rw [condition, bind_assoc]
  simp only [pure_bind]
  rfl

/-- Without a condition, the condition is `true`. -/
theorem condition_guard (n : Nat) (c : Option Expr) :
    Extends (condition n (some (Expr.guard c))) (condition (n + 1) c) := by
  cases c with
  | some c => exact ((extending n.le_succ).evaluateOpt _).first
  | none =>
    rcases n with _ | _ | n
    · exact .exhausted _
    · exact .exhausted _
    · exact .refl _

theorem guard_condition (n : Nat) (c : Option Expr) :
    Extends (condition n c) (condition (n + 1) (some (Expr.guard c))) := by
  cases c with
  | some c => exact ((extending n.le_succ).evaluateOpt _).first
  | none =>
    cases n with
    | zero => exact .exhausted _
    | succ n => exact .refl _

/-- Loops with the same step and body, and conditions that come to the same. -/
theorem extends_loop {c c' : Option Expr}
    (h : ∀ n, Extends (condition n c) (condition (n + 1) c')) (step : Option Expr) (body : Stmt) :
    ∀ n, Extends (loop n c step body) (loop (n + 1) c' step body)
  | 0 => .exhausted _
  | n + 1 => by
    have more := extending n.le_succ
    rw [loop_succ, loop_succ]
    refine (h n).bind fun v => ?_
    split
    · refine (more.execute body).bind fun completion => ?_
      split
      · exact .refl _
      · exact .refl _
      · exact (more.evaluateOpt step).bind fun _ => extends_loop h step body n
    · exact .refl _

/-! ## What the statements come to -/

/-- **Two statements do the same**: from every machine they end in the same way, on the same
    machine, or neither of them ends. -/
def Same (s t : Stmt) : Prop :=
  ∀ m o, (∃ n, execute n s m = some o) ↔ ∃ n, execute n t m = some o

theorem same_of_extends {s t : Stmt} (h : ∀ n, ∃ k, Extends (execute n s) (execute k t))
    (h' : ∀ n, ∃ k, Extends (execute n t) (execute k s)) : Same s t := by
  intro m o
  constructor
  · rintro ⟨n, hn⟩
    exact (h n).imp fun k hk => hk m o hn
  · rintro ⟨n, hn⟩
    exact (h' n).imp fun k hk => hk m o hn

theorem extends_for {n : Nat} {value c c' step : Option Expr} {body : Stmt} (name : Name)
    (h : ∀ n, Extends (condition n c) (condition (n + 1) c')) :
    Extends (execute n (.for name value c step body))
      (execute (n + 1) (.for name value c' step body)) := by
  cases n with
  | zero => exact .exhausted _
  | succ n =>
    exact .next fun m => .next fun scope => (((extending n.le_succ).evaluateOpt value).bind
      fun v => .next fun _ => extends_loop h step body n).within

/-- **A `for` without a condition does the same as one with the condition `true`.** -/
theorem for_same_true (name : Name) (value step : Option Expr) (body : Stmt) :
    Same (.for name value none step body)
      (.for name value (some (.literal (.bool true))) step body) :=
  same_of_extends (fun n => ⟨n + 1, extends_for name fun n => guard_condition n none⟩)
    fun n => ⟨n + 1, extends_for name fun n => condition_guard n none⟩

/-- **A `for` without a step does the same as the block with the `while`.** -/
theorem for_same_block (name : Name) (value c : Option Expr) (body : Stmt) :
    Same (.for name value c none body)
      (.block [.let name value, .while (Expr.guard c) body]) := by
  refine same_of_extends (fun n => ?_) fun n => ?_
  · cases n with
    | zero => exact ⟨0, .exhausted _⟩
    | succ n =>
      refine ⟨(n + 1) + 4, ?_⟩
      rw [execute_block_while]
      exact .next fun m => .next fun scope => (((extending (n.le_add_right 2)).evaluateOpt
        value).bind fun v => .next fun _ =>
          extends_loop (fun n => guard_condition n c) none body n).within
  · have more := (extending (n.le_add_right 4)).execute
      (.block [.let name value, .while (Expr.guard c) body])
    rw [execute_block_while] at more
    refine ⟨n + 2, fun m o h => ?_⟩
    refine Extends.next (fun m => .next fun scope => ?_) m o (more m o h)
    exact (Extends.next fun v => .next fun _ =>
      extends_loop (fun n => condition_guard n c) none body n).within

end Scriptling.Eval
