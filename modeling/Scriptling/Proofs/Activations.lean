/-
  Activations — running programs in which each `this` has its receiver.

  * `History.Sound`: a point of the history at which something may be run;
  * `Upholding`: what running sound points does, for everything that can be run;
  * `Sound.step`: sound points run only sound points;
  * `upholding`: running a sound point keeps the machine.
-/
import Scriptling.Proofs.Confinement
import Scriptling.Proofs.Upholding

namespace Scriptling

open Eval

namespace Kind

theorem admitsCompletion_mono (K L : Kind) (c : Completion) (h : K.Le L)
    (hc : K.AdmitsCompletion c) : L.AdmitsCompletion c := by
  cases c with
  | normal | broken | continued => trivial
  | returned v => exact h.admits hc

/-- Where nothing is bound there is nothing to ask for. -/
theorem admits_empty {K : Kind} (x : String) (v : Value)
    (h : (Bindings.empty : Bindings Value).get? x = some v) : K.Admits v := by
  rw [Bindings.get?_empty] at h
  cases h

end Kind

namespace History

/-! ## Sound points -/

/-- Something may be run on a machine. -/
def Fits (H : History) (m : Machine) : Job → Prop
  | .expr e => H.Runs m m.scope (.expr e)
  | .exprs es => H.Runs m m.scope (.exprs es)
  | .optional e => H.Runs m m.scope (.optional e)
  | .write _ name v => name.text ≠ "this" ∧ (H.kind m).Admits v
  | .call c args => (H.kind m).Admits (.callable c) ∧ ∀ v ∈ args, (H.kind m).Admits v
  | .host _ args => ∀ v ∈ args, (H.kind m).Admits v
  | .stmt s => H.Runs m m.scope (.stmt s)
  | .stmts ss | .program ss => H.Runs m m.scope (.stmts ss)
  | .loop condition step body => H.Runs m m.scope (.optional condition) ∧
    H.Runs m m.scope (.optional step) ∧ H.Runs m m.scope (.stmt body)
  | .read _ _ | .conversation | .text _ => True

/-- **A point of the history at which something may be run.** -/
structure Sound (H : History) (c : Point) : Prop where
  reached : H c
  holds : H.Holds c.machine
  fits : H.Fits c.machine c.job

/-- The history has all that its points run. -/
def Closed (H : History) : Prop := ∀ c c', H c → Calls c c' → H c'

/-- What is known of everything that is run with some fuel. -/
structure Upholding (H : History) (k : Nat) : Prop where
  evaluate {e m} : H.Sound ⟨k, .expr e, m⟩ → Upholds H (Eval.evaluate k e) m Kind.Admits
  evaluateAll {es m} : H.Sound ⟨k, .exprs es, m⟩ →
    Upholds H (Eval.evaluateAll k es) m fun K vs => ∀ v ∈ vs, K.Admits v
  evaluateOpt {e m} : H.Sound ⟨k, .optional e, m⟩ →
    Upholds H (Eval.evaluateOpt k e) m fun K v => K.Admits (v.getD .null)
  call {c args m} : H.Sound ⟨k, .call c args, m⟩ →
    Upholds H (Eval.call k c args) m Kind.Admits
  callHost {op args m} : H.Sound ⟨k, .host op args, m⟩ →
    Upholds H (Eval.callHost k op args) m Kind.Admits
  converse {m} : H.Sound ⟨k, .conversation, m⟩ → Upholds H (Eval.converse k) m Kind.Admits
  execute {s m} : H.Sound ⟨k, .stmt s, m⟩ →
    Upholds H (Eval.execute k s) m Kind.AdmitsCompletion
  executeAll {ss m} : H.Sound ⟨k, .stmts ss, m⟩ →
    Upholds H (Eval.executeAll k ss) m Kind.AdmitsCompletion
  loop {condition step body m} : H.Sound ⟨k, .loop condition step body, m⟩ →
    Upholds H (Eval.loop k condition step body) m Kind.AdmitsCompletion
  interpret {ss m} : H.Sound ⟨k, .program ss, m⟩ →
    Upholds H (Eval.interpret k ss) m fun _ _ => True
  run {source m} : H.Sound ⟨k, .text source, m⟩ →
    Upholds H (Eval.run k source) m fun _ _ => True

theorem upholding_zero (H : History) : Upholding H 0 where
  evaluate _ := .exhausted
  evaluateAll _ := .exhausted
  evaluateOpt _ := .exhausted
  call _ := .exhausted
  callHost _ := .exhausted
  converse _ := .exhausted
  execute _ := .exhausted
  executeAll _ := .exhausted
  loop _ := .exhausted
  interpret _ := .exhausted
  run _ := .exhausted

/-! ## Sound points run sound points -/

variable {H : History} {m m₁ : Machine} {scope : Chain} {k : Nat}

/-- A piece of what may be run may be run. -/
theorem Runs.piece {p q : Part} {names : List String} (h : H.Runs m scope p)
    (hq : (q, names) ∈ p.pieces) (hs : p.isStruct = false) : H.Runs m scope q :=
  h.inside (.piece hq) hs (Part.opens_of_piece hq)

/-- Nothing stands in a clause that is left out. -/
theorem Runs.omitted : H.Runs m scope (.optional none) := by
  have empty {q : Part} (hq : q.Inside (.optional none)) : False := by
    cases hq with
    | piece h => cases h
  refine ⟨⟨⟨List.forall_mem_nil _, List.forall_mem_nil _⟩, fun f hf => ?_⟩, fun site line n hu => ?_⟩
  · rcases Relation.ReflTransGen.cases_tail hf with h | ⟨q, -, hq⟩
    · cases h
    · exact (empty hq).elim
  · cases hu with
    | inside hq => exact (empty hq).elim

/-- What stands in a new frame, in which nothing is bound. -/
theorem Runs.fresh {p q : Part} (hm : H.Holds m) (hp : H.Runs m m.scope p)
    (hq : q.Inside p) (hs : p.isStruct = false) (ho : p.opens = 1)
    (h : newScope m.scope .empty m = some (.ok scope, m₁)) :
    H.Holds { m₁ with scope := scope } ∧ H.Runs { m₁ with scope := scope } scope q := by
  cases h
  have hk := hm.push (b := .empty) Kind.admits_empty m.scope
  refine ⟨hk.holds.enter _, (hp.enter hq hs ho _).mono (fun _ h => h) ?_⟩
  exact hk.retains.trans (.of_eq rfl rfl rfl)

section

variable (closed : H.Closed) (ih : Upholding H k)
include closed ih

/-- The outcome of an expression that something runs first, in the same scope. -/
theorem Sound.evaluates {job : Job} {e : Expr} {v : Value} (hs : H.Sound ⟨k + 1, job, m⟩)
    (hc : Calls ⟨k + 1, job, m⟩ ⟨k, .expr e, m⟩) (he : H.Runs m m.scope (.expr e))
    (h : evaluate k e m = some (.ok v, m₁)) : H.Keeps m m₁ ∧ (H.kind m₁).Admits v :=
  (ih.evaluate ⟨closed _ _ hs.reached hc, hs.holds, he⟩).after h

/-- The machine after a statement that something runs first. -/
theorem Sound.executes {job : Job} {s : Stmt} {completion : Completion}
    (hs : H.Sound ⟨k + 1, job, m⟩) (hc : Calls ⟨k + 1, job, m⟩ ⟨k, .stmt s, m⟩)
    (hr : H.Runs m m.scope (.stmt s)) (h : execute k s m = some (.ok completion, m₁)) :
    H.Keeps m m₁ :=
  ((ih.execute ⟨closed _ _ hs.reached hc, hs.holds, hr⟩).after h).1

theorem sound_of_expr {e : Expr} {c : Point} (hs : H.Sound ⟨k + 1, .expr e, m⟩)
    (hc : Calls ⟨k + 1, .expr e, m⟩ c) : H.Sound c := by
  have hr := closed _ _ hs.reached hc
  have hf : H.Runs m m.scope (.expr e) := hs.fits
  cases hc with
  | group | operand | left | first | condition | assigned | callee | owner =>
    exact ⟨hr, hs.holds, hf.piece (.head _) rfl⟩
  | target => exact ⟨hr, hs.holds, hf.piece (.tail _ (.head _)) rfl⟩
  | «variable» | this => exact ⟨hr, hs.holds, trivial⟩
  | right h₁ =>
    obtain ⟨hk, -⟩ := hs.evaluates closed ih .left (hf.piece (.head _) rfl) h₁
    exact ⟨hr, hk.holds, (hk.runs hf).piece (.tail _ (.head _)) rfl⟩
  | second h₁ =>
    obtain ⟨hk, -⟩ := hs.evaluates closed ih .first (hf.piece (.head _) rfl) h₁
    exact ⟨hr, hk.holds, (hk.runs hf).piece (.tail _ (.head _)) rfl⟩
  | yes h₁ =>
    obtain ⟨hk, -⟩ := hs.evaluates closed ih .condition (hf.piece (.head _) rfl) h₁
    exact ⟨hr, hk.holds, (hk.runs hf).piece (.tail _ (.head _)) rfl⟩
  | no h₁ =>
    obtain ⟨hk, -⟩ := hs.evaluates closed ih .condition (hf.piece (.head _) rfl) h₁
    exact ⟨hr, hk.holds, (hk.runs hf).piece (.tail _ (.tail _ (.head _))) rfl⟩
  | @assign _ site name _ _ _ _ h₁ =>
    obtain ⟨hk, hv⟩ := hs.evaluates closed ih .assigned (hf.piece (.head _) rfl) h₁
    exact ⟨hr, hk.holds, hf.spares.writes ⟨.write, site, name⟩ List.mem_cons_self rfl, hv⟩
  | field h₁ =>
    obtain ⟨hk, -⟩ := hs.evaluates closed ih .target (hf.piece (.tail _ (.head _)) rfl) h₁
    exact ⟨hr, hk.holds, (hk.runs hf).piece (.head _) rfl⟩
  | arguments h₁ =>
    obtain ⟨hk, -⟩ := hs.evaluates closed ih .callee (hf.piece (.head _) rfl) h₁
    exact ⟨hr, hk.holds, (hk.runs hf).piece (.tail _ (.head _)) rfl⟩
  | call h₁ h₂ ha =>
    obtain ⟨hk, hc⟩ := hs.evaluates closed ih .callee (hf.piece (.head _) rfl) h₁
    have hargs : H.Sound ⟨k, .exprs _, _⟩ := ⟨closed _ _ hs.reached (.arguments h₁), hk.holds,
      (hk.runs hf).piece (.tail _ (.head _)) rfl⟩
    obtain ⟨hk₂, hvs⟩ := (ih.evaluateAll hargs).after h₂
    exact ⟨hr, hk₂.holds, hk₂.kind_le.admits hc, hvs⟩

theorem sound_of_exprs {es : List Expr} {c : Point} (hs : H.Sound ⟨k + 1, .exprs es, m⟩)
    (hc : Calls ⟨k + 1, .exprs es, m⟩ c) : H.Sound c := by
  have hr := closed _ _ hs.reached hc
  have hf : H.Runs m m.scope (.exprs es) := hs.fits
  cases hc with
  | argument => exact ⟨hr, hs.holds, hf.piece (.head _) rfl⟩
  | others h₁ =>
    obtain ⟨hk, -⟩ := hs.evaluates closed ih .argument (hf.piece (.head _) rfl) h₁
    exact ⟨hr, hk.holds, (hk.runs hf).piece (.tail _ (.head _)) rfl⟩

omit ih in
theorem sound_of_call {f : Callable} {args : List Value} {c : Point}
    (hs : H.Sound ⟨k + 1, .call f args, m⟩) (hc : Calls ⟨k + 1, .call f args, m⟩ c) :
    H.Sound c := by
  have hr := closed _ _ hs.reached hc
  obtain ⟨hf, hargs⟩ := hs.fits
  cases hc with
  | @body _ f _ _ scope m₁ h₁ =>
    have hk : H.Keeps m m₁ := by
      cases h₁
      exact hs.holds.push (fun _ _ => Kind.admits_bindParams hargs) f.scope
    have hin : m.Retains { m₁ with scope := scope } := hk.retains.trans (.of_eq rfl rfl rfl)
    cases h₁
    exact ⟨hr, hk.holds.enter _, .body hf (.intro hs.reached rfl) rfl hin (by simp)⟩
  | host => exact ⟨hr, hs.holds, hargs⟩

omit ih in
theorem sound_of_host {op : HostOperation} {args : List Value} {c : Point}
    (hs : H.Sound ⟨k + 1, .host op args, m⟩) (hc : Calls ⟨k + 1, .host op args, m⟩ c) :
    H.Sound c := by
  have hr := closed _ _ hs.reached hc
  have hargs : ∀ v ∈ args, (H.kind m).Admits v := hs.fits
  cases hc with
  | @apply _ f args _ =>
    obtain ⟨hf, hrest⟩ := List.forall_mem_cons.1 hargs
    refine ⟨hr, hs.holds, hf, List.forall_mem_singleton.2 ?_⟩
    cases args with
    | nil => trivial
    | cons v args => exact hrest v List.mem_cons_self
  | nested => exact ⟨hr, hs.holds, trivial⟩
  | @custom _ key _ _ =>
    have hshows : (HostEvent.called key args).Shows (H.kind m).Admits fun _ => True := hargs
    exact ⟨hr, (hs.holds.hear hshows).holds, trivial⟩

theorem sound_of_conversation {c : Point} (hs : H.Sound ⟨k + 1, .conversation, m⟩)
    (hc : Calls ⟨k + 1, .conversation, m⟩ c) : H.Sound c := by
  have hr := closed _ _ hs.reached hc
  have hmove := hs.holds.move
  have asked {f : Callable} {args : List Value} (ha : m.host m.heard = .call f args) :
      H.Sound ⟨k, .call f args, m⟩ := by
    rw [ha] at hmove
    exact ⟨closed _ _ hs.reached (.asked ha), hs.holds, hmove⟩
  cases hc with
  | asked ha => exact asked ha
  | entered => exact ⟨hr, hs.holds, trivial⟩
  | @answered _ _ _ _ r m₁ ha h₁ =>
    obtain ⟨hk, hv⟩ := ih.call (asked ha) _ _ h₁
    have hshows := HostEvent.shows_answered (E := fun _ => True) hv fun _ _ => trivial
    exact ⟨hr, (hk.holds.hear hshows).holds, trivial⟩
  | @resumed _ _ _ r m₁ ha h₁ =>
    have hrun : H.Sound ⟨k, .text _, m⟩ :=
      ⟨closed _ _ hs.reached (.entered ha), hs.holds, trivial⟩
    obtain ⟨hk, -⟩ := ih.run hrun _ _ h₁
    have hshows : (HostEvent.ran r).Shows (H.kind m₁).Admits fun _ => True :=
      HostEvent.shows_ran fun _ _ => trivial
    exact ⟨hr, (hk.holds.hear hshows).holds, trivial⟩

theorem sound_of_stmt {s : Stmt} {c : Point} (hs : H.Sound ⟨k + 1, .stmt s, m⟩)
    (hc : Calls ⟨k + 1, .stmt s, m⟩ c) : H.Sound c := by
  have hr := closed _ _ hs.reached hc
  have hf : H.Runs m m.scope (.stmt s) := hs.fits
  cases hc with
  | expression | print | test | returned => exact ⟨hr, hs.holds, hf.piece (.head _) rfl⟩
  | «value» => exact ⟨hr, hs.holds, hf.inside .value rfl rfl⟩
  | block h₁ =>
    obtain ⟨hm, hbody⟩ := Runs.fresh hs.holds hf .block rfl rfl h₁
    exact ⟨hr, hm, hbody⟩
  | passed h₁ =>
    obtain ⟨hk, -⟩ := hs.evaluates closed ih .test (hf.piece (.head _) rfl) h₁
    exact ⟨hr, hk.holds, (hk.runs hf).piece (.tail _ (.head _)) rfl⟩
  | failed h₁ =>
    obtain ⟨hk, -⟩ := hs.evaluates closed ih .test (hf.piece (.head _) rfl) h₁
    exact ⟨hr, hk.holds, ((hk.runs hf).piece (.tail _ (.tail _ (.head _))) rfl).piece (.head _) rfl⟩
  | «while» =>
    have hrounds : H.Runs m m.scope (.rounds _) := hf.piece (.tail _ (.head _)) rfl
    exact ⟨hr, hs.holds, hf.piece (.head _) rfl, .omitted, hrounds.inside .round rfl rfl⟩
  | variableValue h₁ =>
    obtain ⟨hm, hclauses⟩ := Runs.fresh hs.holds hf .loop rfl rfl h₁
    exact ⟨hr, hm, (hclauses.piece (.head _) rfl).inside .value rfl rfl⟩
  | @«for» _ name _ _ _ _ _ _ m₁ _ m₂ m₃ h₁ h₂ h₃ =>
    obtain ⟨hm, hclauses⟩ := Runs.fresh hs.holds hf .loop rfl rfl h₁
    have hlet := hclauses.piece (.head _) rfl
    have hvalue : H.Sound ⟨k, .optional _, _⟩ :=
      ⟨closed _ _ hs.reached (.variableValue h₁), hm, hlet.inside .value rfl rfl⟩
    obtain ⟨hk, hv⟩ := (ih.evaluateOpt hvalue).after h₂
    have hname : name.text ≠ "this" := hlet.spares.named _ List.mem_cons_self
    obtain ⟨hk₃, -⟩ := (Upholds.define hk.holds hname hv).after h₃
    have hloop := (hk.trans hk₃).runs hclauses
    refine ⟨hr, hk₃.holds, hloop.piece (.tail _ (.head _)) rfl,
      hloop.piece (.tail _ (.tail _ (.head _))) rfl, ?_⟩
    exact (hloop.piece (.tail _ (.tail _ (.tail _ (.head _)))) rfl).inside .round rfl rfl

theorem sound_of_stmts {ss : List Stmt} {c : Point} (hs : H.Sound ⟨k + 1, .stmts ss, m⟩)
    (hc : Calls ⟨k + 1, .stmts ss, m⟩ c) : H.Sound c := by
  have hr := closed _ _ hs.reached hc
  have hf : H.Runs m m.scope (.stmts ss) := hs.fits
  cases hc with
  | head => exact ⟨hr, hs.holds, hf.piece (.head _) rfl⟩
  | tail h₁ =>
    have hk := hs.executes closed ih .head (hf.piece (.head _) rfl) h₁
    exact ⟨hr, hk.holds, (hk.runs hf).piece (.tail _ (.head _)) rfl⟩

theorem sound_of_program {ss : List Stmt} {c : Point} (hs : H.Sound ⟨k + 1, .program ss, m⟩)
    (hc : Calls ⟨k + 1, .program ss, m⟩ c) : H.Sound c := by
  have hr := closed _ _ hs.reached hc
  have hf : H.Runs m m.scope (.stmts ss) := hs.fits
  cases hc with
  | statement => exact ⟨hr, hs.holds, hf.piece (.head _) rfl⟩
  | statements h₁ =>
    have hk := hs.executes closed ih .statement (hf.piece (.head _) rfl) h₁
    exact ⟨hr, hk.holds, (hk.runs hf).piece (.tail _ (.head _)) rfl⟩

/-- The step of a loop, which may be left out. -/
theorem upholds_step {condition step : Option Expr} {body : Stmt} {v : Option Value}
    {d : Completion} {m₂ : Machine} (hs : H.Sound ⟨k + 1, .loop condition step body, m⟩)
    (h₁ : evaluateOpt k condition m = some (.ok v, m₁))
    (hv : (v.getD (.bool true)).isTruthy = true) (h₂ : execute k body m₁ = some (.ok d, m₂))
    (hd : d.goesOn = true) (hk : H.Keeps m m₂) :
    Upholds H (evaluateOpt k step) m₂ fun K v => K.Admits (v.getD .null) := by
  cases step with
  | none =>
    cases k with
    | zero => exact .exhausted
    | succ k => exact .pure hk.holds trivial
  | some e =>
    exact ih.evaluateOpt ⟨closed _ _ hs.reached (.step h₁ hv h₂ hd), hk.holds,
      hk.runs hs.fits.2.1⟩

theorem sound_of_loop {condition step : Option Expr} {body : Stmt} {c : Point}
    (hs : H.Sound ⟨k + 1, .loop condition step body, m⟩)
    (hc : Calls ⟨k + 1, .loop condition step body, m⟩ c) : H.Sound c := by
  have hr := closed _ _ hs.reached hc
  obtain ⟨hcondition, hstep, hbody⟩ := hs.fits
  have hcheck : H.Sound ⟨k, .optional condition, m⟩ :=
    ⟨closed _ _ hs.reached .check, hs.holds, hcondition⟩
  have hround {v : Option Value} {m₁ : Machine}
      (h₁ : evaluateOpt k condition m = some (.ok v, m₁))
      (hv : (v.getD (.bool true)).isTruthy = true) : H.Sound ⟨k, .stmt body, m₁⟩ ∧ H.Keeps m m₁ := by
    obtain ⟨hk, -⟩ := (ih.evaluateOpt hcheck).after h₁
    exact ⟨⟨closed _ _ hs.reached (.round h₁ hv), hk.holds, hk.runs hbody⟩, hk⟩
  cases hc with
  | check => exact hcheck
  | round h₁ hv => exact (hround h₁ hv).1
  | step h₁ hv h₂ hd =>
    obtain ⟨hsound, hk⟩ := hround h₁ hv
    obtain ⟨hk₂, -⟩ := (ih.execute hsound).after h₂
    exact ⟨hr, hk₂.holds, (hk.trans hk₂).runs hstep⟩
  | @again _ _ _ _ _ _ _ _ m₂ _ m₃ h₁ hv h₂ hd h₃ =>
    obtain ⟨hsound, hk⟩ := hround h₁ hv
    obtain ⟨hk₂, -⟩ := (ih.execute hsound).after h₂
    have hrounds := hk.trans hk₂
    obtain ⟨hk₃, -⟩ := (upholds_step closed ih hs h₁ hv h₂ hd hrounds).after h₃
    have hall := hrounds.trans hk₃
    exact ⟨hr, hk₃.holds, hall.runs hcondition, hall.runs hstep, hall.runs hbody⟩

omit ih in
theorem sound_of_text {source : String} {c : Point} (hs : H.Sound ⟨k + 1, .text source, m⟩)
    (hc : Calls ⟨k + 1, .text source, m⟩ c) : H.Sound c := by
  have hr := closed _ _ hs.reached hc
  cases hc with
  | run h₁ =>
    obtain ⟨hk, hp⟩ := hs.holds.load h₁
    exact ⟨hr, hk.holds, hp _ rfl⟩

/-- **Sound points run only sound points.** -/
theorem Sound.step {job : Job} {c : Point} (hs : H.Sound ⟨k + 1, job, m⟩)
    (hc : Calls ⟨k + 1, job, m⟩ c) : H.Sound c := by
  cases job with
  | expr e => exact sound_of_expr closed ih hs hc
  | exprs es => exact sound_of_exprs closed ih hs hc
  | optional e =>
    have hr := closed _ _ hs.reached hc
    have hf : H.Runs m m.scope (.optional e) := hs.fits
    cases hc with
    | present => exact ⟨hr, hs.holds, hf.piece (.head _) rfl⟩
  | read | write => cases hc
  | call f args => exact sound_of_call closed hs hc
  | host op args => exact sound_of_host closed hs hc
  | conversation => exact sound_of_conversation closed ih hs hc
  | stmt s => exact sound_of_stmt closed ih hs hc
  | stmts ss => exact sound_of_stmts closed ih hs hc
  | loop condition step body => exact sound_of_loop closed ih hs hc
  | program ss => exact sound_of_program closed ih hs hc
  | text source => exact sound_of_text closed hs hc

/-! ## Running sound points -/

theorem evaluate_succ {e : Expr} (hs : H.Sound ⟨k + 1, .expr e, m⟩) :
    Upholds H (evaluate (k + 1) e) m Kind.Admits := by
  have next {c : Point} (hc : Calls ⟨k + 1, .expr e, m⟩ c) : H.Sound c := hs.step closed ih hc
  unfold evaluate
  cases e with
  | literal value => exact .pure hs.holds (Kind.admits_plain (Value.isPlain_ofLiteral value))
  | group e => exact ih.evaluate (next .group)
  | unary op line e =>
    exact (ih.evaluate (next .operand)).bind fun v _ _ hk _ =>
      .ofExcept hk.holds fun u hu => Kind.admits_plain (UnaryOp.apply_plain hu)
  | binary op line l r =>
    exact (ih.evaluate (next .left)).bind fun a _ h₁ _ _ =>
      (ih.evaluate (next (.right h₁))).bind fun b _ _ hk _ =>
        .ofExcept hk.holds fun u hu => Kind.admits_plain (BinaryOp.apply_plain hu)
  | logical op l r =>
    refine (ih.evaluate (next .first)).bind fun a _ h₁ hk ha => ?_
    split
    · exact .pure hk.holds ha
    · next hd => exact ih.evaluate (next (.second h₁ (Bool.eq_false_iff.2 hd)))
  | ternary c y n =>
    refine (ih.evaluate (next .condition)).bind fun v _ h₁ _ _ => ?_
    split
    · next hv => exact ih.evaluate (next (.yes h₁ hv))
    · next hv => exact ih.evaluate (next (.no h₁ (Bool.eq_false_iff.2 hv)))
  | «variable» site name => exact .read hs.holds site name
  | this site line => exact .read hs.holds site _
  | assign site name value =>
    refine (ih.evaluate (next .assigned)).bind fun v _ h₁ hk hv => ?_
    exact (Upholds.write hk.holds site (next (.assign h₁)).fits.1 hv).bind fun _ _ _ hk₂ _ =>
      .pure hk₂.holds (hk₂.kind_le.admits hv)
  | call callee line arguments =>
    refine (ih.evaluate (next .callee)).bind fun f _ h₁ _ _ =>
      (ih.evaluateAll (next (.arguments h₁))).bind fun args _ h₂ hk _ => ?_
    split
    · split
      · next ha => exact ih.call (next (.call h₁ h₂ ha))
      · exact .fail hk.holds _ _
    · exact .fail hk.holds _ _
  | get object name =>
    refine (ih.evaluate (next .owner)).bind fun o _ h₁ hk ho => ?_
    split
    · exact .property hk.holds hs.reached h₁ ho
    · exact .fail hk.holds _ _
  | set object name value =>
    refine (ih.evaluate (next .target)).bind fun o _ h₁ hk _ => ?_
    split
    · exact (ih.evaluate (next (.field h₁))).bind fun v _ _ hk₂ hv =>
        (Upholds.setField hk₂.holds hv).bind fun _ _ _ hk₃ _ =>
          .pure hk₃.holds (hk₃.kind_le.admits hv)
    · exact .fail hk.holds _ _
  | function f =>
    have hf : H.Runs m m.scope (.expr (.function f)) := hs.fits
    refine (Upholds.makeClosure hs.holds f).bind fun c m₁ _ hk hc => ?_
    have hclosure : (H.kind m₁).Admits (.callable (.closure c)) := by
      obtain ⟨rfl, hscope⟩ := hc
      have hin := (hf.inside .literal rfl rfl).mono (fun _ h => h) hk.retains
      rw [← hscope] at hin
      exact ⟨hin.toReady, Or.inr hin.uses⟩
    dsimp only
    split
    · next name hn =>
      have hname : name.text ≠ "this" :=
        hf.spares.named _ (by simp [Part.declares, Expr.declares, hn])
      exact (Upholds.define hk.holds hname hclosure).bind fun _ _ _ hk₂ _ =>
        .pure hk₂.holds (hk₂.kind_le.admits hclosure)
    · exact .pure hk.holds hclosure

theorem evaluateAll_succ {es : List Expr} (hs : H.Sound ⟨k + 1, .exprs es, m⟩) :
    Upholds H (evaluateAll (k + 1) es) m fun K vs => ∀ v ∈ vs, K.Admits v := by
  have next {c : Point} (hc : Calls ⟨k + 1, .exprs es, m⟩ c) : H.Sound c := hs.step closed ih hc
  cases es with
  | nil => exact .pure hs.holds (List.forall_mem_nil _)
  | cons e es =>
    exact (ih.evaluate (next .argument)).bind fun v _ h₁ _ hv =>
      (ih.evaluateAll (next (.others h₁))).bind fun vs _ _ hk hvs =>
        .pure hk.holds (List.forall_mem_cons.2 ⟨hk.kind_le.admits hv, hvs⟩)

theorem evaluateOpt_succ {e : Option Expr} (hs : H.Sound ⟨k + 1, .optional e, m⟩) :
    Upholds H (evaluateOpt (k + 1) e) m fun K v => K.Admits (v.getD .null) := by
  cases e with
  | none => exact .pure hs.holds trivial
  | some e =>
    exact (ih.evaluate (hs.step closed ih .present)).bind fun v _ _ hk hv => .pure hk.holds hv

theorem call_succ {c : Callable} {args : List Value} (hs : H.Sound ⟨k + 1, .call c args, m⟩) :
    Upholds H (call (k + 1) c args) m Kind.Admits := by
  obtain ⟨hc, hargs⟩ := hs.fits
  cases c with
  | closure c =>
    unfold Eval.call
    dsimp only
    rw [← bind_assoc]
    refine (Upholds.inside hs.holds Kind.admitsCompletion_mono
      (fun _ _ => Kind.admits_bindParams hargs) fun scope m₁ h₁ =>
        ih.executeAll (hs.step closed ih (.body h₁))).bind fun completion _ _ hk hv => ?_
    cases completion with
    | normal => exact .pure hk.holds trivial
    | returned v => exact .pure hk.holds hv
    | broken | continued => exact .fail hk.holds _ _
  | struct t => exact .instantiate hs.holds hc
  | native n => exact ih.callHost (hs.step closed ih .host)

theorem callHost_succ {op : HostOperation} {args : List Value}
    (hs : H.Sound ⟨k + 1, .host op args, m⟩) :
    Upholds H (callHost (k + 1) op args) m Kind.Admits := by
  have hm := hs.holds
  have hargs : ∀ v ∈ args, (H.kind m).Admits v := hs.fits
  unfold callHost
  cases op with
  | clock =>
    have hk : H.Keeps m { m with time := m.time + 1 } := hm.other rfl rfl rfl rfl rfl rfl rfl
    exact .step rfl hk (.pure hk.holds trivial)
  | typeName | text | idle => exact .pure hm trivial
  | double | arity =>
    dsimp only
    split
    · exact .pure hm trivial
    · exact .fail hm _ _
  | number =>
    exact (Upholds.ofExcept (Q := fun _ _ => True) hm fun _ _ => trivial).bind
      fun n _ _ hk _ => .pure hk.holds trivial
  | names => exact .step rfl (.refl hm) (.pure hm trivial)
  | apply =>
    cases args with
    | nil => exact .fail hm _ _
    | cons v args =>
      cases v with
      | callable c => exact ih.call (hs.step closed ih .apply)
      | _ => exact .fail hm _ _
  | nested =>
    exact (ih.run (hs.step closed ih .nested)).bind fun _ _ _ hk _ => .pure hk.holds trivial
  | custom key =>
    have hshows : (HostEvent.called key args).Shows (H.kind m).Admits fun _ => True := hargs
    exact .step rfl (hm.hear hshows) (ih.converse (hs.step closed ih .custom))

theorem converse_succ (hs : H.Sound ⟨k + 1, .conversation, m⟩) :
    Upholds H (Eval.converse (k + 1)) m Kind.Admits := by
  have next {c : Point} (hc : Calls ⟨k + 1, .conversation, m⟩ c) : H.Sound c :=
    hs.step closed ih hc
  have hmove := hs.holds.move
  unfold Eval.converse
  refine .step rfl (.refl hs.holds) ?_
  cases hm : m.host m.heard with
  | done outcome =>
    rw [hm] at hmove
    refine .ofExcept hs.holds fun v hv => ?_
    rw [hv] at hmove
    exact hmove
  | call c args =>
    refine (ih.call (next (.asked hm))).attempt fun r m₁ h₁ hk hv => ?_
    have hshows := HostEvent.shows_answered (E := fun _ => True) hv fun _ _ => trivial
    exact .step rfl (hk.holds.hear hshows) (ih.converse (next (.answered hm h₁)))
  | run source =>
    refine (ih.run (next (.entered hm))).attempt fun r m₁ h₁ hk _ => ?_
    have hshows : (HostEvent.ran r).Shows (H.kind m₁).Admits fun _ => True :=
      HostEvent.shows_ran fun _ _ => trivial
    exact .step rfl (hk.holds.hear hshows) (ih.converse (next (.resumed hm h₁)))

theorem execute_succ {s : Stmt} (hs : H.Sound ⟨k + 1, .stmt s, m⟩) :
    Upholds H (execute (k + 1) s) m Kind.AdmitsCompletion := by
  have next {c : Point} (hc : Calls ⟨k + 1, .stmt s, m⟩ c) : H.Sound c := hs.step closed ih hc
  have hf : H.Runs m m.scope (.stmt s) := hs.fits
  unfold execute
  cases s with
  | expression e =>
    exact (ih.evaluate (next .expression)).bind fun v _ _ hk _ => .pure hk.holds trivial
  | print e =>
    exact (ih.evaluate (next .print)).bind fun v _ _ hk _ =>
      (Upholds.print hk.holds _).bind fun _ _ _ hk₂ _ => .pure hk₂.holds trivial
  | «let» name value =>
    have hname : name.text ≠ "this" := hf.spares.named _ List.mem_cons_self
    exact (ih.evaluateOpt (next .value)).bind fun v _ _ hk hv =>
      (Upholds.define hk.holds hname hv).bind fun _ _ _ hk₂ _ => .pure hk₂.holds trivial
  | block body =>
    exact .step rfl (.refl hs.holds) (.inside hs.holds Kind.admitsCompletion_mono
      Kind.admits_empty fun scope m₁ h₁ => ih.executeAll (next (.block h₁)))
  | «if» condition yes no =>
    refine (ih.evaluate (next .test)).bind fun v _ h₁ hk _ => ?_
    split
    · next hv => exact ih.execute (next (.passed h₁ hv))
    · next hv =>
      cases no with
      | none => exact .pure hk.holds trivial
      | some s => exact ih.execute (next (.failed h₁ (Bool.eq_false_iff.2 hv)))
  | «while» condition body => exact ih.loop (next .while)
  | «for» name value condition step body =>
    refine .step rfl (.refl hs.holds) (.inside hs.holds Kind.admitsCompletion_mono
      Kind.admits_empty fun scope m₁ h₁ => ?_)
    have hname : name.text ≠ "this" := hf.spares.named _ List.mem_cons_self
    exact (ih.evaluateOpt (next (.variableValue h₁))).bind fun v _ h₂ hk hv =>
      (Upholds.define hk.holds hname hv).bind fun _ _ h₃ _ _ => ih.loop (next (.for h₁ h₂ h₃))
  | «break» | «continue» => exact .pure hs.holds trivial
  | «return» line value =>
    exact (ih.evaluateOpt (next .returned)).bind fun v _ _ hk hv => .pure hk.holds hv
  | struct name methods =>
    exact (Upholds.declareStruct hs.holds hf.toReady).bind fun _ _ _ hk _ => .pure hk.holds trivial

theorem executeAll_succ {ss : List Stmt} (hs : H.Sound ⟨k + 1, .stmts ss, m⟩) :
    Upholds H (executeAll (k + 1) ss) m Kind.AdmitsCompletion := by
  cases ss with
  | nil => exact .pure hs.holds trivial
  | cons s ss =>
    refine (ih.execute (hs.step closed ih .head)).bind fun c _ h₁ hk hc => ?_
    split
    · exact ih.executeAll (hs.step closed ih (.tail h₁))
    · exact .pure hk.holds hc

theorem loop_succ {condition step : Option Expr} {body : Stmt}
    (hs : H.Sound ⟨k + 1, .loop condition step body, m⟩) :
    Upholds H (loop (k + 1) condition step body) m Kind.AdmitsCompletion := by
  have next {c : Point} (hc : Calls ⟨k + 1, .loop condition step body, m⟩ c) : H.Sound c :=
    hs.step closed ih hc
  unfold loop
  refine (ih.evaluateOpt (next .check)).bind fun v _ h₁ hk₁ _ => ?_
  split
  · next hv =>
    refine (ih.execute (next (.round h₁ hv))).bind fun d _ h₂ hk₂ hd => ?_
    have goesOn (hgo : d.goesOn = true) : Upholds H
        (evaluateOpt k step >>= fun _ => loop k condition step body) _ Kind.AdmitsCompletion :=
      (upholds_step closed ih hs h₁ hv h₂ hgo (hk₁.trans hk₂)).bind fun _ _ h₃ _ _ =>
        ih.loop (next (.again h₁ hv h₂ hgo h₃))
    cases d with
    | broken => exact .pure hk₂.holds trivial
    | returned v => exact .pure hk₂.holds hd
    | normal | continued => exact goesOn rfl
  · exact .pure hk₁.holds trivial

theorem interpret_succ {ss : List Stmt} (hs : H.Sound ⟨k + 1, .program ss, m⟩) :
    Upholds H (interpret (k + 1) ss) m fun _ _ => True := by
  cases ss with
  | nil => exact .flush hs.holds
  | cons s ss =>
    refine (ih.execute (hs.step closed ih .statement)).bind fun c m₁ h₁ hk _ => ?_
    cases c with
    | normal => exact .step rfl (.refl hk.holds) (ih.interpret (hs.step closed ih (.statements h₁)))
    | returned | broken | continued =>
      exact .bind (Q := fun _ _ => True) (.fail hk.holds _ _) nofun

theorem run_succ {source : String} (hs : H.Sound ⟨k + 1, .text source, m⟩) :
    Upholds H (run (k + 1) source) m fun _ _ => True :=
  (Upholds.load hs.holds source).bind fun _ _ h₁ _ _ =>
    ih.interpret (hs.step closed ih (.run h₁))

theorem Upholding.succ : Upholding H (k + 1) where
  evaluate := evaluate_succ closed ih
  evaluateAll := evaluateAll_succ closed ih
  evaluateOpt := evaluateOpt_succ closed ih
  call := call_succ closed ih
  callHost := callHost_succ closed ih
  converse := converse_succ closed ih
  execute := execute_succ closed ih
  executeAll := executeAll_succ closed ih
  loop := loop_succ closed ih
  interpret := interpret_succ closed ih
  run := run_succ closed ih

end

/-- **Running a sound point keeps the machine.** -/
theorem upholding (closed : H.Closed) : ∀ k, Upholding H k
  | 0 => upholding_zero H
  | k + 1 => (upholding closed k).succ closed

/-- **Whatever a sound point comes to is sound.** -/
theorem Sound.reaches (closed : H.Closed) {c c' : Point} (hs : H.Sound c) (h : Reaches c c') :
    H.Sound c' := by
  induction h with
  | refl => exact hs
  | @tail b d _ hbd ih =>
    obtain ⟨k, job, m⟩ := b
    cases k with
    | zero => cases hbd
    | succ k => exact ih.step closed (upholding closed k) hbd

end History

end Scriptling
