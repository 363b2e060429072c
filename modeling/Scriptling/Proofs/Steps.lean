/-
  Steps — what everything that a machine does respects.

  * `Machine.Closed`: a relation between machines that the elementary steps respect;
  * `Eval.Respects`: a computation leads only to machines that are so related; this composes
    (`Respects.bind`);
  * `Eval.respects`: what the elementary steps respect, all of the evaluation respects;
  * `Machine.Later`: a machine comes after another one, however that comes about;
  * `Session.scope_restored`: so the current scope is the one of before when something has been
    run, however it ended.
-/
import Scriptling.Proofs.Logics
import Scriptling.Proofs.Reach
import Scriptling.Proofs.Sites

namespace Scriptling

/-! ## Relations between machines -/

/-- Relations between the machine before and the machine after that every elementary step
    respects.  A scope is entered when its frame has just been made, and left with all else that
    has happened. -/
structure Machine.Closed (R : Machine → Machine → Prop) : Prop where
  refl : ∀ m, R m m
  trans : ∀ {a b c}, R a b → R b c → R a c
  identity : ∀ m i, R m { m with nextIdentity := i }
  frame : ∀ (m : Machine) base b, R m { m with frames := (m.frames.child base b).2 }
  inside : ∀ {m m₁ : Machine} {scope : Chain} {frames : Frames Value},
    (∃ base b, m.frames.child base b = (scope, frames)) →
    R { m with scope := scope, frames := frames } m₁ → R m { m₁ with scope := m.scope }
  define : ∀ (m : Machine) x v, R m { m with frames := m.frames.define m.scope x v }
  write : ∀ {m : Machine} {i x}, (m.frames.frame i).contains x = true →
    ∀ v, R m { m with frames := m.frames.set i x v }
  print : ∀ (m : Machine) text, R m { m with sink := (m.sink.write text).1 }
  object : ∀ m : Machine, R m { m with objects := m.objects.push .empty }
  field : ∀ (m : Machine) i x v, R m { m with objects := m.objects.modify i fun b => b.set x v }
  hear : ∀ (m : Machine) event, R m (m.hear event)
  tick : ∀ m : Machine, R m { m with time := m.time + 1 }
  parse : ∀ {source m r m'}, Eval.parseText source m = some (r, m') → R m m'
  load : ∀ {source m r m'}, Eval.load source m = some (r, m') → R m m'

namespace Eval

variable {α β : Type} {R : Machine → Machine → Prop}

/-- **A computation leads only to machines in a relation**, however it ends. -/
def Respects (R : Machine → Machine → Prop) (act : Eval α) : Prop :=
  ∀ m r m', act m = some (r, m') → R m m'

variable (hR : Machine.Closed R)
include hR

/-! ## Composition -/

theorem Respects.pure (a : α) : Respects R (Pure.pure a : Eval α) := by
  intro m r m' h
  cases h
  exact hR.refl m

theorem Respects.throw (e : Error) : Respects R (throw e : Eval α) := by
  intro m r m' h
  cases h
  exact hR.refl m

theorem Respects.ofExcept : ∀ r : Except Error α, Respects R (Eval.ofExcept r)
  | .ok a => .pure hR a
  | .error e => .throw hR e

theorem Respects.bind {act : Eval α} {f : α → Eval β} (h : Respects R act)
    (hf : ∀ a, Respects R (f a)) : Respects R (act >>= f) := by
  intro m r m' hr
  rw [bind_apply] at hr
  rcases hact : act m with _ | ⟨_ | a, m₁⟩
  · rw [hact] at hr; cases hr
  · rw [hact] at hr
    cases hr
    exact h m _ _ hact
  · rw [hact] at hr
    exact hR.trans (h m _ _ hact) (hf a m₁ r m' hr)

omit hR in
/-- What a computation learns from the machine at its start. -/
theorem Respects.get {f : Machine → Eval α} (h : ∀ m, Respects R (f m)) :
    Respects R (MonadState.get >>= f) := fun m r m' hr => h m m r m' hr

omit hR in
/-- A single step. -/
theorem Respects.modify {f : Machine → α × Machine} (h : ∀ m, R m (f m).2) :
    Respects R (modifyGet f) := by
  intro m r m' hr
  cases hr
  exact h m

omit hR in
theorem Respects.exhausted : Respects R (Eval.exhausted : Eval α) := fun _ _ _ h => nomatch h

omit hR in
theorem Respects.attempt {act : Eval α} (h : Respects R act) : Respects R (Eval.attempt act) := by
  intro m r m' hr
  unfold Eval.attempt at hr
  rcases hact : act m with _ | ⟨r₁, m₁⟩
  · rw [hact] at hr; cases hr
  · rw [hact] at hr
    cases hr
    exact h m _ _ hact

/-- A computation in a new scope. -/
theorem Respects.inside {base : Chain} {b : Bindings Value} {act : Eval α} (h : Respects R act) :
    Respects R (newScope base b >>= fun scope => Eval.within scope act) := by
  intro m r m' hr
  obtain ⟨m₁, hact, rfl⟩ := inside_eq.1 hr
  exact hR.inside ⟨base, b, rfl⟩ (h _ _ _ hact)

/-! ## Elementary steps -/

theorem Respects.define (x : String) (v : Value) : Respects R (Eval.define x v) :=
  .modify fun m => hR.define m x v

theorem Respects.read (site : Nat) (name : Name) : Respects R (Eval.read site name) :=
  .get fun _ => .ofExcept hR _

theorem Respects.write (site : Nat) (name : Name) (v : Value) :
    Respects R (Eval.write site name v) := by
  intro m r m' h
  have start : Eval.write site name v m = (Eval.ofExcept (m.binder site name) >>= fun i =>
      modifyGet fun m => ((), { m with frames := m.frames.set i name.text v })) m := rfl
  rw [start] at h
  cases hb : m.binder site name with
  | error e =>
    rw [hb] at h
    cases h
    exact hR.refl m
  | ok i =>
    rw [hb] at h
    cases h
    exact hR.write (Machine.binder_bound hb) v

theorem Respects.assign (name : Name) (v : Value) : Respects R (Eval.assign name v) := by
  intro m r m' h
  rw [assign_apply] at h
  have found := m.frames.find_spec m.scope name
  split at h
  · next i hi =>
    rw [hi] at found
    cases h
    exact hR.write found v
  · cases h
    exact hR.refl m

theorem Respects.print (text : String) : Respects R (Eval.print text) := by
  refine .bind hR (.modify fun m => hR.print m (text ++ "\n")) fun whole => ?_
  cases whole with
  | true => exact .pure hR _
  | false => exact .throw hR _

theorem Respects.flush : Respects R Eval.flush := by
  refine .get fun m => ?_
  split
  · exact .throw hR _
  · exact .pure hR _

theorem Respects.parseText (source : String) : Respects R (Eval.parseText source) :=
  fun _ _ _ h => hR.parse h

theorem Respects.load (source : String) : Respects R (Eval.load source) :=
  fun _ _ _ h => hR.load h

theorem Respects.converse {k : Nat} (hcall : ∀ c args, Respects R (Eval.call k c args))
    (hrun : ∀ source, Respects R (Eval.run k source)) (h : Respects R (Eval.converse k)) :
    Respects R (Eval.converse (k + 1)) := by
  unfold Eval.converse
  refine .get fun m => ?_
  split
  · exact .ofExcept hR _
  · exact (hcall _ _).attempt.bind hR fun outcome =>
      (Respects.modify fun m => hR.hear m _).bind hR fun _ => h
  · exact (hrun _).attempt.bind hR fun outcome =>
      (Respects.modify fun m => hR.hear m _).bind hR fun _ => h

/-! ## The evaluation -/

theorem logic_respects : Logic (Respects R) where
  exhausted := .exhausted
  pure := .pure hR
  throw := .throw hR
  bind := .bind hR
  get h _ := .get h
  inside := .inside hR
  freshIdentity := .get fun _ => .bind hR (.modify fun m => hR.identity m _) fun _ => .pure hR _
  newScope base b := .modify fun m => hR.frame m base b
  define := .define hR
  read := .read hR
  write := .write hR
  assign := .assign hR
  print := .print hR
  flush := .flush hR
  instantiate _ := .modify fun m => hR.object m
  setField i x v := .modify fun m => hR.field m i x v
  hear event := .modify fun m => hR.hear m event
  tick := .modify fun m => hR.tick m
  load := .load hR
  converse := .converse hR

/-- **What the elementary steps respect, all of the evaluation respects.** -/
theorem respects (k : Nat) : Pervades (Respects R) k := (logic_respects hR).pervades k

end Eval

/-! ## Sessions -/

namespace Session

section

variable {R : Machine → Machine → Prop} (hR : Machine.Closed R)
include hR

theorem Step.respects {s : Step} {m m₁ : Machine} {es : List Error}
    (h : s.outcome m = some (es, m₁)) : R m m₁ := by
  cases s with
  | run source =>
    obtain ⟨⟨r, m'⟩, hr, he⟩ := Option.map_eq_some_iff.1 h
    cases he
    exact (Eval.respects hR ample).run source m r _ hr
  | evaluate source =>
    obtain ⟨⟨r, m'⟩, hr, he⟩ := Option.map_eq_some_iff.1 h
    cases he
    refine Eval.Respects.bind hR (Eval.Respects.load hR source) (fun program => ?_) m r _ hr
    split
    · exact ((Eval.respects hR ample).evaluate _).bind hR fun v => .pure hR _
    · exact .pure hR _
  | interpret source =>
    obtain ⟨⟨r, m'⟩, hr, he⟩ := Option.map_eq_some_iff.1 h
    cases he
    exact Eval.Respects.bind hR (Eval.Respects.parseText hR source)
      (fun program => (Eval.respects hR ample).interpret program) m r _ hr
  | execute source =>
    obtain ⟨⟨r, m'⟩, hr, he⟩ := Option.map_eq_some_iff.1 h
    cases he
    have each (program : List Stmt) : Eval.Respects R
        (program.mapM fun s => Eval.attempt (Eval.execute ample s)) := by
      induction program with
      | nil => exact .pure hR _
      | cons s ss ih =>
        rw [List.mapM_cons]
        exact ((Eval.respects hR ample).execute s).attempt.bind hR fun c =>
          ih.bind hR fun cs => .pure hR _
    exact Eval.Respects.bind hR (Eval.Respects.parseText hR source) each m r _ hr

/-- **What the elementary steps respect, sessions respect.** -/
theorem Reached.respects {allowed : Step → Prop} {m₀ m : Machine} {ps : List Pass}
    (h : Reached allowed m₀ ps m) : R m₀ m := by
  induction h with
  | start => exact hR.refl _
  | step _ _ ho ih => exact hR.trans ih (Step.respects hR ho)

end

end Session

/-! ## One after the other -/

/-- The machine that running a point leads to, however it ends. -/
def Point.after? (p : Point) : Option Machine :=
  match p.job with
  | .expr e => (Eval.evaluate p.fuel e p.machine).map Prod.snd
  | .exprs es => (Eval.evaluateAll p.fuel es p.machine).map Prod.snd
  | .optional e => (Eval.evaluateOpt p.fuel e p.machine).map Prod.snd
  | .read site name => (Eval.read site name p.machine).map Prod.snd
  | .write site name v => (Eval.write site name v p.machine).map Prod.snd
  | .call c args => (Eval.call p.fuel c args p.machine).map Prod.snd
  | .host op args => (Eval.callHost p.fuel op args p.machine).map Prod.snd
  | .conversation => (Eval.converse p.fuel p.machine).map Prod.snd
  | .stmt s => (Eval.execute p.fuel s p.machine).map Prod.snd
  | .stmts ss => (Eval.executeAll p.fuel ss p.machine).map Prod.snd
  | .loop condition step body => (Eval.loop p.fuel condition step body p.machine).map Prod.snd
  | .program ss => (Eval.interpret p.fuel ss p.machine).map Prod.snd
  | .text source => (Eval.run p.fuel source p.machine).map Prod.snd

/-- **A machine comes after another one**: something that is run on the one comes to the other, or
    ends on it; or a step of a session does. -/
inductive Machine.Later : Machine → Machine → Prop
  | reaches {p q : Point} : Reaches p q → Later p.machine q.machine
  | ends {p : Point} {m} : p.after? = some m → Later p.machine m
  | step {s : Session.Step} {m es m₁} : s.outcome m = some (es, m₁) → Later m m₁
  | trans {m m₁ m₂} : Later m m₁ → Later m₁ m₂ → Later m m₂

section

variable {R : Machine → Machine → Prop} (hR : Machine.Closed R)
  (henter : ∀ (m : Machine) base b, R m { m with
    scope := m.frames.frames.size :: base, frames := (m.frames.child base b).2 })
include hR henter

theorem Calls.respects {p q : Point} (h : Calls p q) : R p.machine q.machine := by
  have kept := Eval.respects hR
  have entered {m m₁ : Machine} {base scope : Chain} {b : Bindings Value}
      (h : Eval.newScope base b m = some (.ok scope, m₁)) : R m { m₁ with scope := scope } := by
    cases h
    exact henter m base b
  cases h with
  | right h | second h | yes h | no h | assign h | arguments h | field h | others h | passed h
  | failed h => exact (kept _).evaluate _ _ _ _ h
  | call h h' => exact hR.trans ((kept _).evaluate _ _ _ _ h) ((kept _).evaluateAll _ _ _ _ h')
  | body h | block h | variableValue h => exact entered h
  | «for» h h' h'' =>
    exact hR.trans (entered h) (hR.trans ((kept _).evaluateOpt _ _ _ _ h')
      (Eval.Respects.define hR _ _ _ _ _ h''))
  | custom => exact hR.hear _ _
  | answered _ h => exact hR.trans ((kept _).call _ _ _ _ _ h) (hR.hear _ _)
  | resumed _ h => exact hR.trans ((kept _).run _ _ _ _ h) (hR.hear _ _)
  | tail h | statements h => exact (kept _).execute _ _ _ _ h
  | round h => exact (kept _).evaluateOpt _ _ _ _ h
  | step h _ h' => exact hR.trans ((kept _).evaluateOpt _ _ _ _ h) ((kept _).execute _ _ _ _ h')
  | again h _ h' _ h'' =>
    exact hR.trans ((kept _).evaluateOpt _ _ _ _ h) (hR.trans ((kept _).execute _ _ _ _ h')
      ((kept _).evaluateOpt _ _ _ _ h''))
  | run h => exact Eval.Respects.load hR _ _ _ _ h
  | _ => exact hR.refl _

omit henter in
theorem Point.respects_after {p : Point} {m : Machine} (h : p.after? = some m) :
    R p.machine m := by
  have kept := Eval.respects hR p.fuel
  have outcome {α : Type} {act : Eval α} (hact : Eval.Respects R act)
      (h : (act p.machine).map Prod.snd = some m) : R p.machine m := by
    obtain ⟨⟨r, m'⟩, hr, rfl⟩ := Option.map_eq_some_iff.1 h
    exact hact _ r m' hr
  unfold after? at h
  split at h
  · exact outcome (kept.evaluate _) h
  · exact outcome (kept.evaluateAll _) h
  · exact outcome (kept.evaluateOpt _) h
  · exact outcome (.read hR _ _) h
  · exact outcome (.write hR _ _ _) h
  · exact outcome (kept.call _ _) h
  · exact outcome (kept.callHost _ _) h
  · exact outcome kept.converse h
  · exact outcome (kept.execute _) h
  · exact outcome (kept.executeAll _) h
  · exact outcome (kept.loop _ _ _) h
  · exact outcome (kept.interpret _) h
  · exact outcome (kept.run _) h

/-- **What the elementary steps respect, and what entering a new scope respects, holds between any
    machine and a later one.** -/
theorem Machine.Later.respects {m m' : Machine} (h : m.Later m') : R m m' := by
  induction h with
  | @reaches p q h =>
    induction h with
    | refl => exact hR.refl _
    | tail _ hc ih => exact hR.trans ih (hc.respects hR henter)
  | ends h => exact Point.respects_after hR h
  | step h => exact Session.Step.respects hR h
  | trans _ _ ih ih' => exact hR.trans ih ih'

end

/-! ## The current scope -/

theorem Machine.closed_scope : Machine.Closed fun m m' => m'.scope = m.scope where
  refl _ := rfl
  trans h h' := h'.trans h
  identity _ _ := rfl
  frame _ _ _ := rfl
  inside _ _ := rfl
  define _ _ _ := rfl
  write _ _ := rfl
  print _ _ := rfl
  object _ := rfl
  field _ _ _ _ := rfl
  hear _ _ := rfl
  tick _ := rfl
  parse h := by
    obtain ⟨_, -, rfl, -⟩ := Eval.parseText_eq h
    rfl
  load h := by
    obtain ⟨_, _, rfl⟩ := Eval.load_eq_with h
    rfl

namespace Session

/-- **Whatever is run, the current scope is the one of before when it has ended**, however it
    has: with a value, with a `break`, `continue` or `return`, or with an error.  So between the
    steps of a session only the globals are visible. -/
theorem scope_restored :
    (∀ (k : Nat) (m m' : Machine),
      (∀ s r, Eval.execute k s m = some (r, m') → m'.scope = m.scope) ∧
      (∀ e r, Eval.evaluate k e m = some (r, m') → m'.scope = m.scope) ∧
      (∀ scope ss r, Eval.within scope (Eval.executeAll k ss) m = some (r, m') →
        m'.scope = m.scope) ∧
      ∀ c args r, Eval.call k c args m = some (r, m') → m'.scope = m.scope) ∧
    ∀ {library : List HostFunction} {host : Host} {sink : Sink} {time : Nat} {ps : List Pass}
      {m : Machine}, Reached (fun _ => True) (start library host sink time) ps m →
      m.scope = globalScope := by
  constructor
  · intro k m m'
    have kept := Eval.respects Machine.closed_scope k
    refine ⟨fun s r h => kept.execute s m r m' h, fun e r h => kept.evaluate e m r m' h, ?_,
      fun c args r h => kept.call c args m r m' h⟩
    intro scope ss r h
    unfold Eval.within at h
    split at h
    · cases h
    · cases h
      rfl
  · intro library host sink time ps m h
    have registered : ∀ (fs : List HostFunction) (m : Machine),
        (fs.foldl Machine.register m).scope = m.scope := by
      intro fs
      induction fs with
      | nil => exact fun _ => rfl
      | cons f fs ih => exact fun m => ih (m.register f)
    exact (h.respects Machine.closed_scope).trans (registered library _)

/-- A program that fails in the body of a loop in a block. -/
def failingProgram : String := "\x7b let a = 1; while (a) \x7b print b; \x7d \x7d"

/-- The step has ended in one error. -/
def fails : Option (List Error × Machine) → Bool
  | some ([_], _) => true
  | _ => false

theorem scope_restored_failing :
    (∃ m', Eval.execute 3 (.block [.break 1]) (start [] relay {} 0) =
      some (.ok (.broken 1), m') ∧ m'.scope = (start [] relay {} 0).scope) ∧
    ∃ e m₁, (Step.run failingProgram).outcome (start [] relay {} 0) = some ([e], m₁) ∧
      m₁.scope = globalScope := by
  refine ⟨⟨_, rfl, (scope_restored.1 3 _ _).1 (.block [.break 1]) (.ok (.broken 1)) rfl⟩, ?_⟩
  have checked : fails ((Step.run failingProgram).outcome (start [] relay {} 0)) = true := by
    decide +kernel
  unfold fails at checked
  split at checked
  · next e m₁ ho => exact ⟨e, m₁, ho, scope_restored.2 (.step .start trivial ho)⟩
  · cases checked

end Session

end Scriptling
