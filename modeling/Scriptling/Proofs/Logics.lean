/-
  Logics — properties that computations have because all that they are made of has them.

  * `Eval.Logic`: a property of values, of errors and of the elementary steps of a machine, which
    composing computations keeps; where the output goes is seen only by printing;
  * `Eval.Pervades`: everything that is run with some fuel has a property;
  * `Eval.Logic.pervades`: so it is, whatever the fuel is.
-/
import Scriptling.Evaluation

namespace Scriptling.Eval

/-! ## Logics -/

/-- **A property of computations that the elementary steps have, and that composing keeps.** -/
structure Logic (P : ∀ {α : Type}, Eval α → Prop) : Prop where
  exhausted {α : Type} : P (Eval.exhausted : Eval α)
  pure {α : Type} (a : α) : P (Pure.pure a : Eval α)
  throw {α : Type} (e : Error) : P (throw e : Eval α)
  bind {α β : Type} {act : Eval α} {f : α → Eval β} : P act → (∀ a, P (f a)) → P (act >>= f)
  /-- What a computation learns from the machine at its start, but for where the output goes. -/
  get {α : Type} {f : Machine → Eval α} : (∀ m, P (f m)) →
    (∀ m sink, f { m with sink := sink } = f m) → P (MonadState.get >>= f)
  /-- A computation in a new scope, which is left in the end. -/
  inside {α : Type} {base : Chain} {b : Bindings Value} {act : Eval α} : P act →
    P (newScope base b >>= fun scope => within scope act)
  freshIdentity : P freshIdentity
  newScope base b : P (newScope base b)
  define x v : P (define x v)
  read site name : P (read site name)
  write site name v : P (write site name v)
  assign name v : P (assign name v)
  print text : P (print text)
  flush : P flush
  instantiate t : P (instantiate t)
  setField i x v : P (setField i x v)
  hear event : P (hear event)
  tick : P tick
  load source : P (load source)
  /-- The host goes on, whatever it wants. -/
  converse {k : Nat} : (∀ c args, P (call k c args)) → (∀ source, P (run k source)) →
    P (converse k) → P (converse (k + 1))

variable {P : ∀ {α : Type}, Eval α → Prop}

namespace Logic

variable (L : Logic P)
include L

theorem fail {α : Type} (line : Nat) (fault : RuntimeFault) : P (Eval.fail line fault : Eval α) :=
  L.throw _

theorem ofExcept {α : Type} : ∀ r : Except Error α, P (Eval.ofExcept r)
  | .ok a => L.pure a
  | .error e => L.throw e

theorem makeClosure (f : Function) : P (Eval.makeClosure f) :=
  L.bind L.freshIdentity fun _ => L.get (fun _ => L.pure _) fun _ _ => rfl

theorem bindMethod (method : Closure) (receiver : Value) : P (Eval.bindMethod method receiver) :=
  L.bind (L.newScope _ _) fun _ => L.bind L.freshIdentity fun _ => L.pure _

theorem property (t : Template) (object : Nat) (name : Name) : P (Eval.property t object name) := by
  refine L.get (fun m => ?_) fun _ _ => rfl
  dsimp only
  split
  · exact L.pure _
  · split
    · exact L.bindMethod _ _
    · exact L.fail _ _

/-- The methods of a struct. -/
theorem closures (fs : List Function) (table : Bindings Closure) : P
    (fs.foldlM (fun table f => do return table.set f.title (← Eval.makeClosure f)) table) := by
  induction fs generalizing table with
  | nil => exact L.pure table
  | cons f fs ih =>
    rw [List.foldlM_cons]
    exact L.bind (L.bind (L.makeClosure f) fun _ => L.pure _) ih

theorem declareStruct (name : Name) (methods : List Function) :
    P (Eval.declareStruct name methods) :=
  L.bind (L.define _ _) fun _ => L.bind (L.closures methods _) fun _ =>
    L.bind L.freshIdentity fun _ => L.assign _ _

end Logic

/-! ## The evaluation -/

/-- Everything that is run with some fuel has a property. -/
structure Pervades (P : ∀ {α : Type}, Eval α → Prop) (k : Nat) : Prop where
  evaluate e : P (Eval.evaluate k e)
  evaluateAll es : P (Eval.evaluateAll k es)
  evaluateOpt e : P (Eval.evaluateOpt k e)
  call c args : P (Eval.call k c args)
  callHost op args : P (Eval.callHost k op args)
  converse : P (Eval.converse k)
  execute s : P (Eval.execute k s)
  executeAll ss : P (Eval.executeAll k ss)
  loop condition step body : P (Eval.loop k condition step body)
  interpret ss : P (Eval.interpret k ss)
  run source : P (Eval.run k source)

theorem Logic.pervades_zero (L : Logic P) : Pervades P 0 where
  evaluate _ := L.exhausted
  evaluateAll _ := L.exhausted
  evaluateOpt _ := L.exhausted
  call _ _ := L.exhausted
  callHost _ _ := L.exhausted
  converse := L.exhausted
  execute _ := L.exhausted
  executeAll _ := L.exhausted
  loop _ _ _ := L.exhausted
  interpret _ := L.exhausted
  run _ := L.exhausted

namespace Pervades

variable {k : Nat} (ih : Pervades P k) (L : Logic P)
include ih L

theorem evaluate_succ (e : Expr) : P (Eval.evaluate (k + 1) e) := by
  unfold Eval.evaluate
  cases e with
  | literal value => exact L.pure _
  | group e => exact ih.evaluate e
  | unary op line e => exact L.bind (ih.evaluate e) fun v => L.ofExcept _
  | binary op line l r =>
    exact L.bind (ih.evaluate l) fun a => L.bind (ih.evaluate r) fun b => L.ofExcept _
  | logical op l r =>
    refine L.bind (ih.evaluate l) fun a => ?_
    split
    · exact L.pure a
    · exact ih.evaluate r
  | ternary c y n =>
    refine L.bind (ih.evaluate c) fun v => ?_
    split
    · exact ih.evaluate y
    · exact ih.evaluate n
  | «variable» site name => exact L.read site name
  | this site line => exact L.read site _
  | assign site name value =>
    exact L.bind (ih.evaluate value) fun v => L.bind (L.write site name v) fun _ => L.pure v
  | call callee line arguments =>
    refine L.bind (ih.evaluate callee) fun f => L.bind (ih.evaluateAll arguments) fun args => ?_
    split
    · split
      · exact ih.call _ args
      · exact L.fail _ _
    · exact L.fail _ _
  | get object name =>
    refine L.bind (ih.evaluate object) fun o => ?_
    split
    · exact L.property _ _ _
    · exact L.fail _ _
  | set object name value =>
    refine L.bind (ih.evaluate object) fun o => ?_
    split
    · exact L.bind (ih.evaluate value) fun v => L.bind (L.setField _ _ _) fun _ => L.pure v
    · exact L.fail _ _
  | function f =>
    refine L.bind (L.makeClosure f) fun c => ?_
    dsimp only
    split
    · exact L.bind (L.define _ _) fun _ => L.pure _
    · exact L.pure _

theorem evaluateAll_succ (es : List Expr) : P (Eval.evaluateAll (k + 1) es) := by
  cases es with
  | nil => exact L.pure _
  | cons e es =>
    exact L.bind (ih.evaluate e) fun v => L.bind (ih.evaluateAll es) fun vs => L.pure _

theorem evaluateOpt_succ (e : Option Expr) : P (Eval.evaluateOpt (k + 1) e) := by
  cases e with
  | none => exact L.pure _
  | some e => exact L.bind (ih.evaluate e) fun v => L.pure _

theorem call_succ (c : Callable) (args : List Value) : P (Eval.call (k + 1) c args) := by
  cases c with
  | closure c =>
    unfold Eval.call
    dsimp only
    rw [← bind_assoc]
    refine L.bind (L.inside (ih.executeAll c.function.body)) fun completion => ?_
    cases completion with
    | normal | returned => exact L.pure _
    | broken | continued => exact L.fail _ _
  | struct t => exact L.instantiate t
  | native n => exact ih.callHost n.operation args

theorem callHost_succ (op : HostOperation) (args : List Value) :
    P (Eval.callHost (k + 1) op args) := by
  unfold Eval.callHost
  cases op with
  | clock => exact L.bind L.tick fun now => L.pure _
  | typeName | text | idle => exact L.pure _
  | double =>
    dsimp only
    split
    · exact L.pure _
    · exact L.fail _ _
  | number => exact L.bind (L.ofExcept _) fun n => L.pure _
  | arity =>
    dsimp only
    split
    · exact L.pure _
    · exact L.fail _ _
  | apply =>
    dsimp only
    split
    · exact ih.call _ _
    · exact L.fail _ _
  | names => exact L.get (fun m => L.pure _) fun _ _ => rfl
  | nested => exact L.bind (ih.run _) fun _ => L.pure _
  | custom key => exact L.bind (L.hear _) fun _ => ih.converse

theorem execute_succ (s : Stmt) : P (Eval.execute (k + 1) s) := by
  unfold Eval.execute
  cases s with
  | expression e => exact L.bind (ih.evaluate e) fun v => L.pure _
  | print e => exact L.bind (ih.evaluate e) fun v => L.bind (L.print _) fun _ => L.pure _
  | «let» name value =>
    exact L.bind (ih.evaluateOpt value) fun v => L.bind (L.define _ _) fun _ => L.pure _
  | block body => exact L.get (fun m => L.inside (ih.executeAll body)) fun _ _ => rfl
  | «if» condition yes no =>
    refine L.bind (ih.evaluate condition) fun v => ?_
    split
    · exact ih.execute yes
    · cases no with
      | none => exact L.pure _
      | some s => exact ih.execute s
  | «while» condition body => exact ih.loop _ _ body
  | «for» name value condition step body =>
    exact L.get (fun m => L.inside (L.bind (ih.evaluateOpt value) fun v =>
      L.bind (L.define _ _) fun _ => ih.loop condition step body)) fun _ _ => rfl
  | «break» | «continue» => exact L.pure _
  | «return» line value => exact L.bind (ih.evaluateOpt value) fun v => L.pure _
  | struct name methods => exact L.bind (L.declareStruct name methods) fun _ => L.pure _

theorem executeAll_succ (ss : List Stmt) : P (Eval.executeAll (k + 1) ss) := by
  cases ss with
  | nil => exact L.pure _
  | cons s ss =>
    refine L.bind (ih.execute s) fun c => ?_
    split
    · exact ih.executeAll ss
    · exact L.pure _

theorem loop_succ (condition step : Option Expr) (body : Stmt) :
    P (Eval.loop (k + 1) condition step body) := by
  unfold Eval.loop
  refine L.bind (ih.evaluateOpt condition) fun v => ?_
  split
  · refine L.bind (ih.execute body) fun c => ?_
    split
    · exact L.pure _
    · exact L.pure _
    · exact L.bind (ih.evaluateOpt step) fun _ => ih.loop condition step body
  · exact L.pure _

theorem interpret_succ (ss : List Stmt) : P (Eval.interpret (k + 1) ss) := by
  cases ss with
  | nil => exact L.flush
  | cons s ss =>
    refine L.bind (ih.execute s) fun c => L.bind ?_ fun _ => ih.interpret ss
    cases c with
    | normal => exact L.pure _
    | returned | broken | continued => exact L.fail _ _

theorem succ : Pervades P (k + 1) where
  evaluate := ih.evaluate_succ L
  evaluateAll := ih.evaluateAll_succ L
  evaluateOpt := ih.evaluateOpt_succ L
  call := ih.call_succ L
  callHost := ih.callHost_succ L
  converse := L.converse ih.call ih.run ih.converse
  execute := ih.execute_succ L
  executeAll := ih.executeAll_succ L
  loop := ih.loop_succ L
  interpret := ih.interpret_succ L
  run source := L.bind (L.load source) fun program => ih.interpret program

end Pervades

/-- **What the elementary steps have, and what composing keeps, everything that is run has.** -/
theorem Logic.pervades (L : Logic P) : ∀ k, Pervades P k
  | 0 => L.pervades_zero
  | k + 1 => (L.pervades k).succ L

end Scriptling.Eval
