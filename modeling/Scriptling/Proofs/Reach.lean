/-
  Reach — the points that a running program comes to.

  A point is something to be run with some fuel on a machine.  Running it runs other things
  on the way: its parts, the bodies of called functions, what the host asks for.

  * `Calls`: what a point runs itself; each premise is the outcome of what was run before;
  * `Reaches`: what it runs at all; the points in between are the call stack;
  * `Awaits`: the declaration of a variable is on the call stack;
  * `Session.Reached`: the machines that sessions come to, with the programs that they have
    accepted on the way.
-/
import Mathlib.Logic.Relation
import Scriptling.Proofs.Visits
import Scriptling.Session

namespace Scriptling

/-! ## Points -/

/-- What can be run. -/
inductive Job where
  | expr (e : Expr)
  | exprs (es : List Expr)
  | optional (e : Option Expr)
  | read (site : Nat) (name : Name)
  | write (site : Nat) (name : Name) (v : Value)
  | call (c : Callable) (args : List Value)
  | host (op : HostOperation) (args : List Value)
  /-- The host goes on. -/
  | conversation
  | stmt (s : Stmt)
  | stmts (ss : List Stmt)
  | loop (condition step : Option Expr) (body : Stmt)
  /-- The statements of a program that are left. -/
  | program (ss : List Stmt)
  | text (source : String)

/-- The part of a program that is run, if it is one. -/
def Job.part? : Job → Option Part
  | expr e => some (.expr e)
  | exprs es => some (.exprs es)
  | optional e => some (.optional e)
  | read site name | write site name _ => some (.reference site name)
  | stmt s => some (.stmt s)
  | stmts ss | program ss => some (.stmts ss)
  | call _ _ | host _ _ | conversation | loop _ _ _ | text _ => none

/-- A point of a run. -/
structure Point where
  fuel : Nat
  job : Job
  machine : Machine

/-- The error that a computation ends in, if it does. -/
def Eval.fault? {α : Type} (act : Eval α) (m : Machine) : Option Error :=
  match act m with
  | some (.error e, _) => some e
  | _ => none

/-- The error that running a point ends in, if it does. -/
def Point.fault? (c : Point) : Option Error :=
  match c.job with
  | .expr e => (Eval.evaluate c.fuel e).fault? c.machine
  | .exprs es => (Eval.evaluateAll c.fuel es).fault? c.machine
  | .optional e => (Eval.evaluateOpt c.fuel e).fault? c.machine
  | .read site name => (Eval.read site name).fault? c.machine
  | .write site name v => (Eval.write site name v).fault? c.machine
  | .call f args => (Eval.call c.fuel f args).fault? c.machine
  | .host op args => (Eval.callHost c.fuel op args).fault? c.machine
  | .conversation => (Eval.converse c.fuel).fault? c.machine
  | .stmt s => (Eval.execute c.fuel s).fault? c.machine
  | .stmts ss => (Eval.executeAll c.fuel ss).fault? c.machine
  | .loop condition step body => (Eval.loop c.fuel condition step body).fault? c.machine
  | .program ss => (Eval.interpret c.fuel ss).fault? c.machine
  | .text source => (Eval.run c.fuel source).fault? c.machine

/-! ## Calls -/

/-- The loop around goes on. -/
def Completion.goesOn : Completion → Bool
  | .normal | .continued _ => true
  | .broken _ | .returned _ => false

open Eval

/-- **What a point runs itself.** -/
inductive Calls : Point → Point → Prop
  | group {k e m} : Calls ⟨k + 1, .expr (.group e), m⟩ ⟨k, .expr e, m⟩
  | operand {k op line e m} : Calls ⟨k + 1, .expr (.unary op line e), m⟩ ⟨k, .expr e, m⟩
  | left {k op line l r m} : Calls ⟨k + 1, .expr (.binary op line l r), m⟩ ⟨k, .expr l, m⟩
  | right {k op line l r m a m₁} : evaluate k l m = some (.ok a, m₁) →
      Calls ⟨k + 1, .expr (.binary op line l r), m⟩ ⟨k, .expr r, m₁⟩
  | first {k op l r m} : Calls ⟨k + 1, .expr (.logical op l r), m⟩ ⟨k, .expr l, m⟩
  | second {k op l r m a m₁} : evaluate k l m = some (.ok a, m₁) → op.isDecided a = false →
      Calls ⟨k + 1, .expr (.logical op l r), m⟩ ⟨k, .expr r, m₁⟩
  | condition {k c y n m} : Calls ⟨k + 1, .expr (.ternary c y n), m⟩ ⟨k, .expr c, m⟩
  | yes {k c y n m v m₁} : evaluate k c m = some (.ok v, m₁) → v.isTruthy = true →
      Calls ⟨k + 1, .expr (.ternary c y n), m⟩ ⟨k, .expr y, m₁⟩
  | no {k c y n m v m₁} : evaluate k c m = some (.ok v, m₁) → v.isTruthy = false →
      Calls ⟨k + 1, .expr (.ternary c y n), m⟩ ⟨k, .expr n, m₁⟩
  | variable {k site name m} :
      Calls ⟨k + 1, .expr (.variable site name), m⟩ ⟨k, .read site name, m⟩
  | this {k site line m} :
      Calls ⟨k + 1, .expr (.this site line), m⟩ ⟨k, .read site ⟨"this", line⟩, m⟩
  | assigned {k site name e m} : Calls ⟨k + 1, .expr (.assign site name e), m⟩ ⟨k, .expr e, m⟩
  | assign {k site name e m v m₁} : evaluate k e m = some (.ok v, m₁) →
      Calls ⟨k + 1, .expr (.assign site name e), m⟩ ⟨k, .write site name v, m₁⟩
  | callee {k e line es m} : Calls ⟨k + 1, .expr (.call e line es), m⟩ ⟨k, .expr e, m⟩
  | arguments {k e line es m f m₁} : evaluate k e m = some (.ok f, m₁) →
      Calls ⟨k + 1, .expr (.call e line es), m⟩ ⟨k, .exprs es, m₁⟩
  | call {k e line es m c m₁ args m₂} : evaluate k e m = some (.ok (.callable c), m₁) →
      evaluateAll k es m₁ = some (.ok args, m₂) → args.length = c.arity →
      Calls ⟨k + 1, .expr (.call e line es), m⟩ ⟨k, .call c args, m₂⟩
  | owner {k e name m} : Calls ⟨k + 1, .expr (.get e name), m⟩ ⟨k, .expr e, m⟩
  | target {k e name value m} : Calls ⟨k + 1, .expr (.set e name value), m⟩ ⟨k, .expr e, m⟩
  | field {k e name value m t i m₁} : evaluate k e m = some (.ok (.object t i), m₁) →
      Calls ⟨k + 1, .expr (.set e name value), m⟩ ⟨k, .expr value, m₁⟩
  | argument {k e es m} : Calls ⟨k + 1, .exprs (e :: es), m⟩ ⟨k, .expr e, m⟩
  | others {k e es m v m₁} : evaluate k e m = some (.ok v, m₁) →
      Calls ⟨k + 1, .exprs (e :: es), m⟩ ⟨k, .exprs es, m₁⟩
  | present {k e m} : Calls ⟨k + 1, .optional (some e), m⟩ ⟨k, .expr e, m⟩
  | body {k c args m scope m₁} :
      newScope c.scope (bindParams c.function.params args) m = some (.ok scope, m₁) →
      Calls ⟨k + 1, .call (.closure c) args, m⟩
        ⟨k, .stmts c.function.body, { m₁ with scope := scope }⟩
  | host {k n args m} : Calls ⟨k + 1, .call (.native n) args, m⟩ ⟨k, .host n.operation args, m⟩
  | apply {k c args m} : Calls ⟨k + 1, .host .apply (.callable c :: args), m⟩
      ⟨k, .call c [args.headD .null], m⟩
  | nested {k args m} : Calls ⟨k + 1, .host .nested args, m⟩
      ⟨k, .text (args.headD .null).text, m⟩
  | custom {k key args m} : Calls ⟨k + 1, .host (.custom key) args, m⟩
      ⟨k, .conversation, m.hear (.called key args)⟩
  | asked {k c args m} : m.host m.heard = .call c args →
      Calls ⟨k + 1, .conversation, m⟩ ⟨k, .call c args, m⟩
  | answered {k c args m r m₁} : m.host m.heard = .call c args →
      Eval.call k c args m = some (r, m₁) →
      Calls ⟨k + 1, .conversation, m⟩ ⟨k, .conversation, m₁.hear (.answered r)⟩
  | entered {k source m} : m.host m.heard = .run source →
      Calls ⟨k + 1, .conversation, m⟩ ⟨k, .text source, m⟩
  | resumed {k source m r m₁} : m.host m.heard = .run source → Eval.run k source m = some (r, m₁) →
      Calls ⟨k + 1, .conversation, m⟩ ⟨k, .conversation, m₁.hear (.ran r)⟩
  | expression {k e m} : Calls ⟨k + 1, .stmt (.expression e), m⟩ ⟨k, .expr e, m⟩
  | print {k e m} : Calls ⟨k + 1, .stmt (.print e), m⟩ ⟨k, .expr e, m⟩
  | value {k name e m} : Calls ⟨k + 1, .stmt (.let name e), m⟩ ⟨k, .optional e, m⟩
  | block {k ss m scope m₁} : newScope m.scope .empty m = some (.ok scope, m₁) →
      Calls ⟨k + 1, .stmt (.block ss), m⟩ ⟨k, .stmts ss, { m₁ with scope := scope }⟩
  | test {k c y n m} : Calls ⟨k + 1, .stmt (.if c y n), m⟩ ⟨k, .expr c, m⟩
  | passed {k c y n m v m₁} : evaluate k c m = some (.ok v, m₁) → v.isTruthy = true →
      Calls ⟨k + 1, .stmt (.if c y n), m⟩ ⟨k, .stmt y, m₁⟩
  | failed {k c y n m v m₁} : evaluate k c m = some (.ok v, m₁) → v.isTruthy = false →
      Calls ⟨k + 1, .stmt (.if c y (some n)), m⟩ ⟨k, .stmt n, m₁⟩
  | while {k c s m} : Calls ⟨k + 1, .stmt (.while c s), m⟩ ⟨k, .loop (some c) none s, m⟩
  | variableValue {k name e c step s m scope m₁} :
      newScope m.scope .empty m = some (.ok scope, m₁) →
      Calls ⟨k + 1, .stmt (.for name e c step s), m⟩ ⟨k, .optional e, { m₁ with scope := scope }⟩
  | for {k name e c step s m scope m₁ v m₂ m₃} :
      newScope m.scope .empty m = some (.ok scope, m₁) →
      evaluateOpt k e { m₁ with scope := scope } = some (.ok v, m₂) →
      define name.text (v.getD .null) m₂ = some (.ok (), m₃) →
      Calls ⟨k + 1, .stmt (.for name e c step s), m⟩ ⟨k, .loop c step s, m₃⟩
  | returned {k line e m} : Calls ⟨k + 1, .stmt (.return line e), m⟩ ⟨k, .optional e, m⟩
  | head {k s ss m} : Calls ⟨k + 1, .stmts (s :: ss), m⟩ ⟨k, .stmt s, m⟩
  | tail {k s ss m m₁} : execute k s m = some (.ok .normal, m₁) →
      Calls ⟨k + 1, .stmts (s :: ss), m⟩ ⟨k, .stmts ss, m₁⟩
  | check {k c step s m} : Calls ⟨k + 1, .loop c step s, m⟩ ⟨k, .optional c, m⟩
  | round {k c step s m v m₁} : evaluateOpt k c m = some (.ok v, m₁) →
      (v.getD (.bool true)).isTruthy = true → Calls ⟨k + 1, .loop c step s, m⟩ ⟨k, .stmt s, m₁⟩
  | step {k c e s m v m₁ d m₂} : evaluateOpt k c m = some (.ok v, m₁) →
      (v.getD (.bool true)).isTruthy = true → execute k s m₁ = some (.ok d, m₂) →
      d.goesOn = true →
      Calls ⟨k + 1, .loop c (some e) s, m⟩ ⟨k, .optional (some e), m₂⟩
  | again {k c step s m v m₁ d m₂ u m₃} : evaluateOpt k c m = some (.ok v, m₁) →
      (v.getD (.bool true)).isTruthy = true → execute k s m₁ = some (.ok d, m₂) →
      d.goesOn = true → evaluateOpt k step m₂ = some (.ok u, m₃) →
      Calls ⟨k + 1, .loop c step s, m⟩ ⟨k, .loop c step s, m₃⟩
  | statement {k s ss m} : Calls ⟨k + 1, .program (s :: ss), m⟩ ⟨k, .stmt s, m⟩
  | statements {k s ss m m₁} : execute k s m = some (.ok .normal, m₁) →
      Calls ⟨k + 1, .program (s :: ss), m⟩ ⟨k, .program ss, m₁⟩
  | run {k source ss m m₁} : load source m = some (.ok ss, m₁) →
      Calls ⟨k + 1, .text source, m⟩ ⟨k, .program ss, m₁⟩

/-- **What a point runs at all.** -/
def Reaches : Point → Point → Prop := Relation.ReflTransGen Calls

/-- Jobs that run only jobs of their kind do so however long they run. -/
theorem Reaches.jobs {J : Job → Prop} (hJ : ∀ {c c'}, Calls c c' → J c.job → J c'.job)
    {c c' : Point} (h : Reaches c c') (hc : J c.job) : J c'.job := by
  induction h with
  | refl => exact hc
  | tail _ hbd ih => exact hJ hbd ih

/-- The first point is the declaration of a variable of a frame, and runs the second to have its
    first value. -/
inductive Begins : Nat × String → Point → Point → Prop
  | value {k name e m F} : m.scope.head? = some F →
      Begins (F, name.text) ⟨k + 1, .stmt (.let name e), m⟩ ⟨k, .optional e, m⟩
  | variableValue {k name e c step s m scope m₁ F} :
      newScope m.scope .empty m = some (.ok scope, m₁) → scope.head? = some F →
      Begins (F, name.text) ⟨k + 1, .stmt (.for name e c step s), m⟩
        ⟨k, .optional e, { m₁ with scope := scope }⟩

/-- **Between two points of a run, the first value of a variable of a frame is still being
    computed**: its declaration is on the call stack. -/
def Awaits (e : Nat × String) (c c' : Point) : Prop :=
  ∃ a b, Reaches c a ∧ Begins e a b ∧ Reaches b c'

theorem Awaits.tail {e : Nat × String} {c b c' : Point} (h : Awaits e c b) (hc : Calls b c') :
    Awaits e c c' := by
  obtain ⟨a, d, hca, had, hdb⟩ := h
  exact ⟨a, d, hca, had, hdb.tail hc⟩

theorem Awaits.head {e : Nat × String} {c b c' : Point} (hc : Calls c b) (h : Awaits e b c') :
    Awaits e c c' := by
  obtain ⟨a, d, hba, had, hdc⟩ := h
  exact ⟨a, d, .head hc hba, had, hdc⟩

/-- A program text runs the program that it is loaded as. -/
theorem Reaches.of_text {k : Nat} {source : String} {m m₁ : Machine} {program : List Stmt}
    {c : Point} (h : Reaches ⟨k, .text source, m⟩ c)
    (hl : load source m = some (.ok program, m₁)) :
    c = ⟨k, .text source, m⟩ ∨ ∃ j, Calls ⟨k, .text source, m⟩ ⟨j, .program program, m₁⟩ ∧
      Reaches ⟨j, .program program, m₁⟩ c := by
  rcases Relation.ReflTransGen.cases_head h with rfl | ⟨b, hb, hbc⟩
  · exact Or.inl rfl
  · cases hb with
    | run hl' =>
      cases hl.symm.trans hl'
      exact Or.inr ⟨_, .run hl, hbc⟩

/-! ## Hosts -/

/-- The value is no function and no instance. -/
def Value.IsPlain : Value → Prop
  | .callable _ | .object _ _ => False
  | _ => True

/-- A statement has completed where nothing could take notice. -/
def Error.IsStray (e : Error) : Prop :=
  ∃ line fault, e = .runtime line fault ∧ (fault = .breakOutsideLoop ∨
    fault = .continueOutsideLoop ∨ fault = .returnOutsideFunction)

/-- A distance leads out of the scope. -/
def Error.IsOutOfRange (e : Error) : Prop := ∃ line, e = .runtime line .scopeOutOfRange

/-- Only values and errors of a kind come to the knowledge of the host. -/
def HostEvent.Shows (P : Value → Prop) (E : Error → Prop) : HostEvent → Prop
  | .called _ args => ∀ v ∈ args, P v
  | .answered (.ok v) => P v
  | .answered (.error e) | .ran (.error e) => E e
  | .ran (.ok _) => True

/-- The host hands on only values and errors of a kind. -/
def HostMove.Uses (P : Value → Prop) (E : Error → Prop) : HostMove → Prop
  | .done (.ok v) => P v
  | .done (.error e) => E e
  | .call c args => P (.callable c) ∧ ∀ v ∈ args, P v
  | .run _ => True

/-- A host is honest if it gets functions and instances of programs from the machine only, and
    does not claim itself that control has left a loop or a function or that a scope is too
    short. -/
def Host.Honest (host : Host) : Prop :=
  ∀ (P : Value → Prop) (E : Error → Prop), (∀ v, v.IsPlain → P v) →
    (∀ n, P (.callable (.native n))) → (∀ e, ¬ e.IsStray → ¬ e.IsOutOfRange → E e) →
      ∀ heard, (∀ event ∈ heard, event.Shows P E) → (host heard).Uses P E

/-- A host that calls what it is given, and hands on what comes of it. -/
def relay : Host
  | .called _ (.callable c :: args) :: _ => .call c args
  | .answered outcome :: _ => .done outcome
  | _ => .done (.ok .null)

theorem relay_honest : relay.Honest := by
  intro P E hP _ _ heard hheard
  unfold relay
  split
  · next c args _ => exact List.forall_mem_cons.1 (hheard _ List.mem_cons_self)
  · next outcome _ =>
    have hout := hheard _ List.mem_cons_self
    cases outcome with
    | ok v => exact hout
    | error e => exact hout
  · exact hP .null trivial

/-- An outcome comes to the knowledge of the host. -/
theorem HostEvent.shows_answered {P : Value → Prop} {E : Error → Prop} {r : Except Error Value}
    (hv : ∀ v, r = .ok v → P v) (he : ∀ e, r = .error e → E e) :
    (HostEvent.answered r).Shows P E := by
  cases r with
  | ok v => exact hv v rfl
  | error e => exact he e rfl

theorem HostEvent.shows_ran {P : Value → Prop} {E : Error → Prop} {r : Except Error Unit}
    (he : ∀ e, r = .error e → E e) : (HostEvent.ran r).Shows P E := by
  cases r with
  | ok => trivial
  | error e => exact he e rfl

theorem HostEvent.Shows.imp {P Q : Value → Prop} {E : Error → Prop} {event : HostEvent}
    (hPQ : ∀ v, P v → Q v) (h : event.Shows P E) : event.Shows Q E := by
  cases event with
  | called key args => exact fun v hv => hPQ v (h v hv)
  | answered outcome =>
    cases outcome with
    | ok v => exact hPQ v h
    | error e => exact h
  | ran outcome =>
    cases outcome with
    | ok => trivial
    | error e => exact h

/-! ## Sessions -/

/-- The walk over a program that is given to a machine. -/
def Pass.of (m : Machine) (program : List Stmt) : Pass :=
  ⟨m.globalNames, program, m.frames.frames.size⟩

namespace Session

/-- A machine before the first step. -/
def start (library : List HostFunction) (host : Host) (sink : Sink) (time : Nat) : Machine :=
  { Machine.start library sink with host := host, time := time }

/-- The program has run through. -/
def isDone : Option (Except Error Unit × Machine) → Bool
  | some (.ok _, _) => true
  | _ => false

theorem exists_of_isDone {x : Option (Except Error Unit × Machine)} (h : isDone x = true) :
    ∃ m, x = some (.ok (), m) := by
  unfold isDone at h
  split at h
  · exact ⟨_, rfl⟩
  · cases h

/-- A step of a session. -/
inductive Step where
  | run (source : String)
  | evaluate (source : String)
  | interpret (source : String)
  | execute (source : String)

/-- The walk over a program, if it is accepted. -/
def accepted (source : String) (m : Machine) : List Pass :=
  match Eval.load source m with
  | some (.ok program, _) => [Pass.of m program]
  | _ => []

/-- The error in a result. -/
def faults {α : Type} : Except Error α → List Error
  | .ok _ => []
  | .error e => [e]

/-- The errors in the results of statements that are executed one by one. -/
def allFaults : Except Error (List (Except Error Completion)) → List Error
  | .ok results => results.flatMap faults
  | .error e => [e]

namespace Step

/-- The step resolves the program that it is given. -/
def Resolves : Step → Prop
  | run _ | evaluate _ => True
  | interpret _ | execute _ => False

/-- The errors that a step ends in, and the machine after it. -/
def outcome : Step → Machine → Option (List Error × Machine)
  | run source, m => (Session.run source m).map fun r => (faults r.1, r.2)
  | evaluate source, m => (Session.evaluate source m).map fun r => (faults r.1, r.2)
  | interpret source, m => (Session.interpret source m).map fun r => (faults r.1, r.2)
  | execute source, m => (Session.execute source m).map fun r => (allFaults r.1, r.2)

/-- The walks over the programs that a step accepts. -/
def passes : Step → Machine → List Pass
  | run source, m | evaluate source, m => accepted source m
  | interpret _, _ | execute _, _ => []

/-- The points at which a step starts to run, with any fuel. -/
inductive Enters (k : Nat) : Step → Machine → Point → Prop
  | run {source m} : Enters k (.run source) m ⟨k, .text source, m⟩
  | evaluate {source m e m₁} : Eval.load source m = some (.ok [.expression e], m₁) →
      Enters k (.evaluate source) m ⟨k, .expr e, m₁⟩
  | interpret {source m program m₁} : Eval.parseText source m = some (.ok program, m₁) →
      Enters k (.interpret source) m ⟨k, .program program, m₁⟩
  | execute {source m before s after m₁ r m₂} :
      Eval.parseText source m = some (.ok (before ++ s :: after), m₁) →
      (before.mapM fun s => Eval.attempt (Eval.execute k s)) m₁ = some (r, m₂) →
      Enters k (.execute source) m ⟨k, .stmt s, m₂⟩

end Step

/-- **The machines that sessions of certain steps come to**, with the walks over the programs
    accepted on the way. -/
inductive Reached (allowed : Step → Prop) (m₀ : Machine) : List Pass → Machine → Prop
  | start : Reached allowed m₀ [] m₀
  | step {ps m s es m₁} : Reached allowed m₀ ps m → allowed s → s.outcome m = some (es, m₁) →
      Reached allowed m₀ (s.passes m ++ ps) m₁

end Session

end Scriptling
