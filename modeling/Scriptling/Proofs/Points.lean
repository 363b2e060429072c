/-
  Points — what holds wherever a running program comes to.

  * `World.Suits`: what may be run at a point;
  * `World.Suits.step`: what may be run runs only what may be run;
  * `Agrees.reaches`: so it is for whole runs;
  * `World.Suits.permits`: running it fails only with errors that are permitted.
-/
import Scriptling.Proofs.Preservation

namespace Scriptling

open World Eval

/-- The task may be run in the scope. -/
def World.Suits (mode : Mode) (W : World) (scope : Chain) : Job → Prop
  | .expr e => W.Placed mode scope (.expr e)
  | .exprs es => W.Placed mode scope (.exprs es)
  | .optional e => W.Placed mode scope (.optional e)
  | .read site name => W.Placed mode scope (.reference site name)
  | .write site name v => W.Placed mode scope (.reference site name) ∧ W.Allows mode v
  | .call c args => W.Sees scope ∧ W.Allows mode (.callable c) ∧ (∀ v ∈ args, W.Allows mode v) ∧
    (¬ mode.hosted → args.length = c.arity)
  | .host _ args => mode.hosted ∧ W.Sees scope ∧ ∀ v ∈ args, W.Allows mode v
  | .stmt s => W.Placed mode scope (.stmt s)
  | .stmts ss => W.Placed mode scope (.stmts ss)
  | .loop condition step body => W.Rounds mode scope condition step body
  | .program ss => W.Placed mode scope (.stmts ss) ∧ (¬ mode.raw → strays ss = [])
  | .conversation | .text _ => mode.hosted ∧ W.Sees scope

/-- A point is one that a run comes to in a world that has grown. -/
def Lands (mode : Mode) (W : World) (pending : List (Nat × String)) (c : Point) : Prop :=
  ∃ V, Le mode W V ∧ Agrees mode V pending c.machine ∧ V.Suits mode c.machine.scope c.job

section

variable {mode : Mode} {W V : World} {pending : List (Nat × String)} {m m₁ : Machine} {k : Nat}

theorem Lands.mono (h : Le mode W V) {c : Point} (hc : Lands mode V pending c) :
    Lands mode W pending c := by
  obtain ⟨U, hU, hm, hs⟩ := hc
  exact ⟨U, h.trans hU, hm, hs⟩

/-- A point on the same machine. -/
theorem lands_here (hm : Agrees mode W pending m) {job : Job} (hj : W.Suits mode m.scope job) :
    Lands mode W pending ⟨k, job, m⟩ := ⟨W, .refl mode W, hm, hj⟩

/-- A point after something has been run. -/
theorem Eval.Safe.lands {α : Type} {act : Eval α} {Q : World → α → Prop} {a : α} {c : Point}
    (h : Safe mode W pending m.scope act Q) (hm : Agrees mode W pending m)
    (ha : act m = some (.ok a, m₁))
    (hc : ∀ V, Le mode W V → Agrees mode V pending m₁ → m₁.scope = m.scope → Q V a →
      Lands mode V pending c) : Lands mode W pending c := by
  obtain ⟨hs, V, hV, hm₁, hQ⟩ := h m rfl hm _ _ ha
  exact (hc V hV hm₁ hs hQ).mono hV

/-- A piece of what may be run, on the same machine. -/
theorem lands_piece (hm : Agrees mode W pending m) {part q : Part} {names : List String}
    {job : Job} (h : W.Placed mode m.scope part) (hq : (q, names) ∈ part.pieces)
    (hb : W.Binds m.scope names)
    (hj : W.Placed mode m.scope q → W.Suits mode m.scope job) :
    Lands mode W pending ⟨k, job, m⟩ :=
  lands_here hm (hj (h.piece hm.proper hq hb))

/-- A piece of what may be run, after something else has been run. -/
theorem Eval.Safe.lands_piece {α : Type} {act : Eval α} {Q : World → α → Prop} {a : α}
    {part q : Part} {names : List String} {job : Job} (h : Safe mode W pending m.scope act Q)
    (hm : Agrees mode W pending m) (ha : act m = some (.ok a, m₁))
    (hp : W.Placed mode m.scope part) (hq : (q, names) ∈ part.pieces)
    (hb : ∀ V : World, Q V a → V.Binds m.scope names)
    (hj : ∀ V : World, Le mode W V → Q V a → V.Placed mode m.scope q → V.Suits mode m.scope job) :
    Lands mode W pending ⟨k, job, m₁⟩ := by
  refine h.lands hm ha fun V hV hm₁ hs hQ => lands_here hm₁ ?_
  rw [hs]
  exact hj V hV hQ ((hp.mono hV).piece hm₁.proper hq (hb V hQ))

/-- A point after something whose errors the host catches. -/
theorem Eval.Safe.lands_caught (hh : mode.hosted) {α : Type} {act : Eval α}
    {Q : World → α → Prop} {r : Except Error α} {c : Point}
    (h : Safe mode W pending m.scope act Q) (hm : Agrees mode W pending m)
    (ha : act m = some (r, m₁))
    (hc : ∀ V, Le mode W V → Agrees mode V pending m₁ → m₁.scope = m.scope →
      (∀ a, r = .ok a → Q V a) → (∀ e, r = .error e → mode.Permits e) → Lands mode V pending c) :
    Lands mode W pending c := by
  obtain ⟨hs, V, hV, hrest⟩ := h m rfl hm _ _ ha
  refine Lands.mono hV ?_
  cases r with
  | ok a =>
    exact hc V hV hrest.1 hs (fun _ ha => by cases ha; exact hrest.2) fun _ he => nomatch he
  | error e =>
    obtain ⟨hperm, abandoned, hm₁⟩ := hrest
    exact hc V hV (hm₁.of_hosted hh pending) hs (fun _ ha => nomatch ha)
      fun _ he => by cases he; exact hperm

/-- A point in a new scope. -/
theorem lands_scope (hm : Agrees mode W pending m) {base scope : Chain} {b : Bindings Value}
    {names : List String} {others : List (Nat × String)} {c : Point}
    (hb : ∀ x, b.contains x = true → x ∈ names)
    (hv : ∀ x v, b.get? x = some v → W.Allows mode v)
    (h : newScope base b m = some (.ok scope, m₁))
    (hc : scope = W.size :: base →
      Agrees mode (W.push names fun x => b.contains x = true) pending { m₁ with scope := scope } →
      Lands mode (W.push names fun x => b.contains x = true) others c) :
    Lands mode W others c := by
  have hnew : newScope base b m =
      some (.ok (W.size :: base), { m with frames := (m.frames.child base b).2 }) := by
    rw [← hm.size]
    rfl
  cases hnew.symm.trans h
  have hpush : Agrees mode (W.push names fun x => b.contains x = true) pending
      { m with frames := (m.frames.child base b).2 } := hm.push hb hv
  exact (hc rfl (hpush.congr rfl rfl rfl rfl rfl rfl)).mono (le_push mode W names _ hm.root)

/-- A point in a scope of its own, in which nothing is bound at first. -/
theorem lands_fresh (hm : Agrees mode W pending m) (names : List String) {base scope : Chain}
    {others : List (Nat × String)} {c : Point}
    (h : newScope base .empty m = some (.ok scope, m₁))
    (hc : scope = W.size :: base →
      Agrees mode (W.push names fun x => (Bindings.empty : Bindings Value).contains x = true)
        pending { m₁ with scope := scope } →
      Lands mode (W.push names fun x => (Bindings.empty : Bindings Value).contains x = true)
        others c) :
    Lands mode W others c := by
  refine lands_scope hm (fun x hx => ?_) (fun x v hv => ?_) h hc
  · rw [Bindings.contains_empty] at hx; cases hx
  · rw [Bindings.get?_empty] at hv; cases hv

/-! ## What calls and statements run -/

theorem lands_call {callee : Expr} {line : Nat} {arguments : List Expr} {c : Callable}
    {args : List Value} {m₂ : Machine} (hm : Agrees mode W pending m)
    (hs : W.Placed mode m.scope (.expr (.call callee line arguments)))
    (h₁ : evaluate k callee m = some (.ok (.callable c), m₁))
    (h₂ : evaluateAll k arguments m₁ = some (.ok args, m₂)) (ha : args.length = c.arity) :
    Lands mode W pending ⟨k, .call c args, m₂⟩ := by
  refine ((kept mode k).expr hs (.head _) (binds_nil W _)).lands hm h₁ fun V hV hm₁ e₁ hc => ?_
  have hargs : Safe mode V pending m.scope (evaluateAll k arguments) fun U vs =>
      (∀ v ∈ vs, U.Allows mode v) ∧ U.Binds m.scope (Expr.assuredAll arguments) :=
    (kept mode k).exprs (hs.mono hV) (.tail _ (.head _)) hc.2
  rw [← e₁] at hargs
  refine hargs.lands hm₁ h₂ fun U hU hm₂ e₂ hvs => lands_here hm₂ ⟨?_, ?_, hvs.1, fun _ => ha⟩
  · rw [e₂, e₁]
    exact hs.runs.sees.mono (hV.trans hU).toSub
  · exact hc.1.mono hU.toSub

theorem lands_body {c : Closure} {args : List Value} {scope : Chain}
    (hm : Agrees mode W pending m) (hs : W.Suits mode m.scope (.call (.closure c) args))
    (h : newScope c.scope (bindParams c.function.params args) m = some (.ok scope, m₁)) :
    Lands mode W pending ⟨k, .stmts c.function.body, { m₁ with scope := scope }⟩ := by
  obtain ⟨-, hc, hargs, ha⟩ := hs
  have params (x : String) (hx : (bindParams c.function.params args).contains x = true) :
      x ∈ c.function.params.map Name.text ++ Stmt.declaresAll c.function.body :=
    List.mem_append_left _ (mem_of_contains_bindParams hx)
  refine lands_scope hm params (fun x v hv => hargs v (mem_of_get?_bindParams hv)) h
    fun e hm₁ => lands_here hm₁ ?_
  subst e
  exact Runs.body hm.proper hc fun hh x hx => contains_bindParams (ha hh) hx

theorem lands_block {body : List Stmt} {scope : Chain} (hm : Agrees mode W pending m)
    (hs : W.Placed mode m.scope (.stmt (.block body)))
    (h : newScope m.scope .empty m = some (.ok scope, m₁)) :
    Lands mode W pending ⟨k, .stmts body, { m₁ with scope := scope }⟩ := by
  refine lands_fresh hm (Stmt.declaresAll body) h fun e hm₁ => lands_here hm₁ ?_
  subst e
  exact hs.block hm.proper _

/-- The first value of a variable is pending. -/
theorem lands_value {name : Name} {value : Option Expr} {F : Nat} (hm : Agrees mode W pending m)
    (hs : W.Placed mode m.scope (.stmt (.let name value))) (hF : m.scope.head? = some F) :
    Lands mode W ((F, name.text) :: pending) ⟨k, .optional value, m⟩ := by
  have hF' : F < W.size := hs.runs.sees.2 F (List.mem_of_mem_head? hF)
  refine ⟨_, le_begin mode W F name.text, hm.begin hF', ?_⟩
  refine (hs.mono (le_begin mode W F name.text)).value fun G hG => Or.inr ⟨?_, rfl⟩
  rw [Option.mem_def.1 hG] at hF
  exact Option.some.inj hF

/-- The clauses of a `for`, in the scope of its variable. -/
theorem lands_clauses {name : Name} {value condition step : Option Expr} {body : Stmt}
    {scope : Chain} {others : List (Nat × String)} {c : Point} (hm : Agrees mode W pending m)
    (hs : W.Placed mode m.scope (.stmt (.for name value condition step body)))
    (h : newScope m.scope .empty m = some (.ok scope, m₁))
    (hc : ∀ V : World, Agrees mode V pending { m₁ with scope := scope } →
      V.Placed mode scope (.clauses name value condition step body) → Lands mode V others c) :
    Lands mode W others c := by
  refine lands_fresh hm (declaresInLoop name value condition step body) h fun e hm₁ =>
    hc _ hm₁ ?_
  subst e
  exact hs.clauses hm.proper _

/-- The loop of a `for`, once its variable has its first value. -/
theorem lands_loop {name : Name} {value condition step : Option Expr} {body : Stmt}
    {u : Option Value} {m₂ : Machine} (hm : Agrees mode W pending m)
    (hs : W.Placed mode m.scope (.clauses name value condition step body))
    (h₁ : evaluateOpt k value m = some (.ok u, m₁))
    (h₂ : define name.text (u.getD .null) m₁ = some (.ok (), m₂)) :
    Lands mode W pending ⟨k, .loop condition step body, m₂⟩ := by
  have hlet := hs.piece hm.proper (.head _) (binds_nil W m.scope)
  have hboth : (evaluateOpt k value >>= fun v => define name.text (v.getD .null)) m =
      some (.ok (), m₂) := bind_eq_ok.2 ⟨u, m₁, h₁, h₂⟩
  refine ((kept mode k).initial hlet).lands hm hboth fun V hV hm₂ e hb => lands_here hm₂ ?_
  rw [e]
  exact Rounds.of_clauses hm₂.proper (hs.mono hV) hb

theorem lands_again {condition step : Option Expr} {body : Stmt} {v : Option Value}
    {d : Completion} {m₂ : Machine} (hm : Agrees mode W pending m)
    (hs : W.Rounds mode m.scope condition step body)
    (h₁ : evaluateOpt k condition m = some (.ok v, m₁))
    (h₂ : execute k body m₁ = some (.ok d, m₂)) {c : Point}
    (hc : ∀ V, Agrees mode V pending m₂ → m₂.scope = m.scope →
      V.Rounds mode m.scope condition step body →
      (step = none ∨ V.Placed mode m.scope (.optional step)) → Lands mode V pending c) :
    Lands mode W pending c := by
  refine ((kept mode k).evaluateOpt hs.test).lands hm h₁ fun V hV hm₁ e₁ hv => ?_
  obtain ⟨-, hbody⟩ := hs.others V hm₁.proper hV hv.2
  have hexec : Safe mode V pending m.scope (execute k body) fun U d =>
      U.Leaves mode m.scope body.assured d := (kept mode k).execute hbody.round
  rw [← e₁] at hexec
  refine hexec.lands hm₁ h₂ fun U hU hm₂ e₂ _ => hc U hm₂ (e₂.trans e₁) ?_ ?_
  · exact (hs.mono hV).mono hU
  · exact (hs.others U hm₂.proper (hV.trans hU) (hv.2.mono hU.toSub)).1

/-! ## What each job runs -/

theorem lands_of_expr {e : Expr} {c : Point} (hm : Agrees mode W pending m)
    (hs : W.Placed mode m.scope (.expr e)) (h : Calls ⟨k, .expr e, m⟩ c) :
    Lands mode W pending c := by
  have none := binds_nil W m.scope
  cases h with
  | group | operand | left | first | condition | assigned | callee | owner | «variable» | this =>
    exact lands_piece hm hs (.head _) none id
  | target => exact lands_piece hm hs (.tail _ (.head _)) none id
  | right h₁ | second h₁ | yes h₁ | arguments h₁ =>
    exact ((kept mode _).expr hs (.head _) none).lands_piece hm h₁ hs (.tail _ (.head _))
      (fun V hv => hv.2) fun V _ _ hp => hp
  | no h₁ =>
    exact ((kept mode _).expr hs (.head _) none).lands_piece hm h₁ hs
      (.tail _ (.tail _ (.head _))) (fun V hv => hv.2) fun V _ _ hp => hp
  | assign h₁ =>
    exact ((kept mode _).expr hs (.head _) none).lands_piece hm h₁ hs (.tail _ (.head _))
      (fun V hv => hv.2) fun V _ hv hp => ⟨hp, hv.1⟩
  | field h₁ =>
    exact ((kept mode _).expr hs (.tail _ (.head _)) none).lands_piece hm h₁ hs (.head _)
      (fun V hv => hv.2) fun V _ _ hp => hp
  | call h₁ h₂ ha => exact lands_call hm hs h₁ h₂ ha

theorem lands_of_call {f : Callable} {args : List Value} {c : Point} (hm : Agrees mode W pending m)
    (hs : W.Suits mode m.scope (.call f args)) (h : Calls ⟨k, .call f args, m⟩ c) :
    Lands mode W pending c := by
  cases h with
  | body h₁ => exact lands_body hm hs h₁
  | host => exact lands_here hm ⟨hs.2.1, hs.1, hs.2.2.1⟩

theorem lands_of_host {op : HostOperation} {args : List Value} {c : Point}
    (hm : Agrees mode W pending m) (hs : W.Suits mode m.scope (.host op args))
    (h : Calls ⟨k, .host op args, m⟩ c) : Lands mode W pending c := by
  obtain ⟨hh, hsees, hargs⟩ := hs
  cases h with
  | @apply _ f args _ =>
    refine lands_here hm ⟨hsees, hargs _ List.mem_cons_self, fun v hv => ?_, fun hn => absurd hh hn⟩
    rw [List.mem_singleton] at hv
    subst hv
    cases args with
    | nil => trivial
    | cons v args => exact hargs v (.tail _ (.head _))
  | nested => exact lands_here hm ⟨hh, hsees⟩
  | @custom _ key _ _ =>
    have shows : (HostEvent.called key args).Shows (W.Allows mode) mode.Permits := hargs
    exact lands_here (hm.hear shows) ⟨hh, hsees⟩

theorem lands_of_conversation {c : Point} (hm : Agrees mode W pending m)
    (hs : W.Suits mode m.scope .conversation) (h : Calls ⟨k, .conversation, m⟩ c) :
    Lands mode W pending c := by
  obtain ⟨hh, hsees⟩ := hs
  have hmove := hm.move hh
  cases h with
  | asked ha =>
    rw [ha] at hmove
    exact lands_here hm ⟨hsees, hmove.1, hmove.2, fun hn => absurd hh hn⟩
  | @answered _ _ _ _ r _ ha h₁ =>
    rw [ha] at hmove
    refine ((kept mode _).call hsees hmove.1 hmove.2 fun hn => absurd hh hn).lands_caught hh hm h₁
      fun V hV hm₁ e hok herr => ?_
    have sees := hsees.mono hV.toSub
    rw [← e] at sees
    exact lands_here (hm₁.hear (HostEvent.shows_answered hok herr)) ⟨hh, sees⟩
  | entered => exact lands_here hm ⟨hh, hsees⟩
  | @resumed _ _ _ r _ _ h₁ =>
    refine ((kept mode _).run hh hsees).lands_caught hh hm h₁ fun V hV hm₁ e _ herr => ?_
    have sees := hsees.mono hV.toSub
    rw [← e] at sees
    exact lands_here (hm₁.hear (HostEvent.shows_ran herr)) ⟨hh, sees⟩

/-- The first value of a variable is the one thing that is run while a declaration is pending. -/
theorem lands_of_stmt {s : Stmt} {c : Point} (hm : Agrees mode W pending m)
    (hs : W.Placed mode m.scope (.stmt s)) (h : Calls ⟨k, .stmt s, m⟩ c) :
    Lands mode W pending c ∨
      ∃ e, Begins e ⟨k, .stmt s, m⟩ c ∧ Lands mode W (e :: pending) c := by
  have none := binds_nil W m.scope
  cases h with
  | expression | print | test | returned =>
    exact Or.inl (lands_piece hm hs (.head _) none id)
  | «value» =>
    obtain ⟨F, hF⟩ : ∃ F, m.scope.head? = some F := ⟨_, List.head?_eq_some_head hs.runs.sees.1⟩
    exact Or.inr ⟨_, .value hF, lands_value hm hs hF⟩
  | block h₁ => exact Or.inl (lands_block hm hs h₁)
  | passed h₁ =>
    exact Or.inl (((kept mode _).expr hs (.head _) none).lands_piece hm h₁ hs (.tail _ (.head _))
      (fun V hv => hv.2) fun V _ _ hp => hp)
  | failed h₁ =>
    refine Or.inl (((kept mode _).expr hs (.head _) none).lands hm h₁ fun V hV hm₁ e hv => ?_)
    have hno := (hs.mono hV).piece hm₁.proper (.tail _ (.tail _ (.head _))) hv.2
    rw [← e] at hno
    exact lands_piece hm₁ hno (.head _) (binds_nil V _) id
  | «while» => exact Or.inl (lands_here hm (.of_while hm.proper hs))
  | @variableValue _ name _ _ _ _ _ scope _ h₁ =>
    cases scope with
    | nil => cases h₁
    | cons F rest =>
      refine Or.inr ⟨_, .variableValue h₁ rfl, lands_clauses hm hs h₁ fun V hV hp => ?_⟩
      exact lands_value hV (hp.piece hV.proper (.head _) (binds_nil V _)) rfl
  | «for» h₁ h₂ h₃ =>
    exact Or.inl (lands_clauses hm hs h₁ fun V hV hp => lands_loop hV hp h₂ h₃)

theorem lands_of_stmts {ss : List Stmt} {c : Point} (hm : Agrees mode W pending m)
    (hs : W.Placed mode m.scope (.stmts ss)) (h : Calls ⟨k, .stmts ss, m⟩ c) :
    Lands mode W pending c := by
  have none := binds_nil W m.scope
  cases h with
  | head => exact lands_piece hm hs (.head _) none id
  | @tail k _ _ _ _ h₁ =>
    refine ((kept mode k).execute (hs.piece hm.proper (.head _) none)).lands_piece hm h₁ hs
      (.tail _ (.head _)) (fun V hv => hv) fun V _ _ hp => hp

theorem lands_of_loop {condition step : Option Expr} {body : Stmt} {c : Point}
    (hm : Agrees mode W pending m) (hs : W.Rounds mode m.scope condition step body)
    (h : Calls ⟨k, .loop condition step body, m⟩ c) : Lands mode W pending c := by
  cases h with
  | check => exact lands_here hm hs.test
  | round h₁ ht =>
    refine ((kept mode _).evaluateOpt hs.test).lands hm h₁ fun V hV hm₁ e hv => lands_here hm₁ ?_
    rw [e]
    exact (hs.others V hm₁.proper hV hv.2).2.round
  | step h₁ ht h₂ hd =>
    refine lands_again hm hs h₁ h₂ fun V hm₂ e _ hstep => lands_here hm₂ ?_
    rw [e]
    exact hstep.resolve_left nofun
  | @again k _ _ _ _ _ _ _ _ _ _ h₁ ht h₂ hd h₃ =>
    refine lands_again hm hs h₁ h₂ fun V hm₂ e hr hstep => ?_
    have hval : Safe mode V pending m.scope (evaluateOpt k step) fun _ _ => True := by
      rcases hstep with rfl | hstep
      · exact Kept.evaluateOpt_none
      · exact ((kept mode k).evaluateOpt hstep).mono fun _ _ _ _ => trivial
    rw [← e] at hval
    refine hval.lands hm₂ h₃ fun U hU hm₃ e₃ _ => lands_here hm₃ ?_
    rw [e₃, e]
    exact hr.mono hU

theorem lands_of_program {ss : List Stmt} {c : Point} (hm : Agrees mode W pending m)
    (hs : W.Suits mode m.scope (.program ss)) (h : Calls ⟨k, .program ss, m⟩ c) :
    Lands mode W pending c := by
  have none := binds_nil W m.scope
  obtain ⟨hp, hr⟩ := hs
  cases h with
  | statement => exact lands_piece hm hp (.head _) none id
  | @statements k _ _ _ _ h₁ =>
    refine ((kept mode k).execute (hp.piece hm.proper (.head _) none)).lands_piece hm h₁ hp
      (.tail _ (.head _)) (fun V hv => hv) fun V _ _ hp => ?_
    exact ⟨hp, fun hraw => (List.append_eq_nil_iff.1 (hr hraw)).2⟩

theorem lands_of_text {source : String} {c : Point} (hm : Agrees mode W pending m)
    (hs : W.Suits mode m.scope (.text source)) (h : Calls ⟨k, .text source, m⟩ c) :
    Lands mode W pending c := by
  obtain ⟨hh, hsees⟩ := hs
  cases h with
  | run h₁ =>
    refine (Safe.load hh hsees).lands hm h₁ fun V _ hm₁ e hp => lands_here hm₁ ?_
    rw [e]
    exact ⟨hp.1, fun _ => hp.2⟩

end

/-! ## Runs -/

/-- **What may be run runs only what may be run.**  While the first value of a variable is
    computed, its declaration is pending. -/
theorem World.Suits.step {mode : Mode} {W : World} {pending : List (Nat × String)} {c c' : Point}
    (hm : Agrees mode W pending c.machine) (hs : W.Suits mode c.machine.scope c.job)
    (h : Calls c c') :
    Lands mode W pending c' ∨ ∃ e, Begins e c c' ∧ Lands mode W (e :: pending) c' := by
  obtain ⟨k, job, m⟩ := c
  have none := binds_nil W m.scope
  cases job with
  | expr e => exact Or.inl (lands_of_expr hm hs h)
  | exprs es =>
    cases h with
    | argument => exact Or.inl (lands_piece hm hs (.head _) none id)
    | others h₁ =>
      exact Or.inl (((kept mode _).expr hs (.head _) none).lands_piece hm h₁ hs
        (.tail _ (.head _)) (fun V hv => hv.2) fun V _ _ hp => hp)
  | optional e =>
    cases h with
    | present => exact Or.inl (lands_piece hm hs (.head _) none id)
  | read site name | write site name v => cases h
  | call f args => exact Or.inl (lands_of_call hm hs h)
  | host op args => exact Or.inl (lands_of_host hm hs h)
  | conversation => exact Or.inl (lands_of_conversation hm hs h)
  | stmt s => exact lands_of_stmt hm hs h
  | stmts ss => exact Or.inl (lands_of_stmts hm hs h)
  | loop condition step body => exact Or.inl (lands_of_loop hm hs h)
  | program ss => exact Or.inl (lands_of_program hm hs h)
  | text source => exact Or.inl (lands_of_text hm hs h)

/-- **What may be run runs only what may be run, however long it runs.**  Declarations are
    pending only while they are on the call stack. -/
theorem Agrees.reaches {mode : Mode} {W : World} {pending : List (Nat × String)} {c c' : Point}
    (hm : Agrees mode W pending c.machine) (hs : W.Suits mode c.machine.scope c.job)
    (h : Reaches c c') :
    ∃ others, Lands mode W others c' ∧ ∀ e ∈ others, e ∈ pending ∨ Awaits e c c' := by
  induction h with
  | refl => exact ⟨pending, ⟨W, .refl mode W, hm, hs⟩, fun _ he => Or.inl he⟩
  | @tail b d hcb hbd ih =>
    obtain ⟨others, ⟨V, hV, hmb, hsb⟩, hothers⟩ := ih
    have earlier : ∀ e ∈ others, e ∈ pending ∨ Awaits e c d := fun e he =>
      (hothers e he).imp_right fun ha => ha.tail hbd
    rcases hsb.step hmb hbd with hd | ⟨e, hbegin, hd⟩
    · exact ⟨others, hd.mono hV, earlier⟩
    · refine ⟨e :: others, hd.mono hV, List.forall_mem_cons.2 ⟨Or.inr ?_, earlier⟩⟩
      exact ⟨b, d, hcb, hbegin, .refl⟩

/-- What may be run of a program is a part that may be run. -/
theorem World.Suits.runs {mode : Mode} {W : World} {scope : Chain} {job : Job} {part : Part}
    (h : W.Suits mode scope job) (hp : job.part? = some part) : W.Runs mode scope part := by
  cases job with
  | expr | exprs | optional | read | stmt | stmts =>
    cases hp
    exact Placed.runs h
  | write =>
    cases hp
    exact h.1.runs
  | program =>
    cases hp
    exact h.1.runs
  | call | host | conversation | loop | text => cases hp

theorem Eval.Safe.fault {α : Type} {mode : Mode} {W : World} {pending : List (Nat × String)}
    {act : Eval α} {m : Machine} {Q : World → α → Prop} {e : Error}
    (h : Safe mode W pending m.scope act Q) (hm : Agrees mode W pending m)
    (he : act.fault? m = some e) : mode.Permits e := by
  unfold Eval.fault? at he
  rcases hact : act m with _ | ⟨r, m₁⟩
  · rw [hact] at he; cases he
  · rw [hact] at he
    obtain ⟨-, V, -, hrest⟩ := h m rfl hm _ _ hact
    cases r with
    | ok a => cases he
    | error e' => cases he; exact hrest.1

/-- **What may be run fails only with errors that are permitted.** -/
theorem World.Suits.permits {mode : Mode} {W : World} {pending : List (Nat × String)} {c : Point}
    {e : Error} (hm : Agrees mode W pending c.machine) (hs : W.Suits mode c.machine.scope c.job)
    (he : c.fault? = some e) : mode.Permits e := by
  obtain ⟨k, job, m⟩ := c
  cases job with
  | expr e => exact ((kept mode k).evaluate hs).fault hm he
  | exprs es => exact ((kept mode k).evaluateAll hs).fault hm he
  | optional e => exact ((kept mode k).evaluateOpt hs).fault hm he
  | read site name => exact (Safe.read (Placed.runs hs)).fault hm he
  | write site name v => exact (Safe.write hs.1.runs hs.2).fault hm he
  | call f args => exact ((kept mode k).call hs.1 hs.2.1 hs.2.2.1 hs.2.2.2).fault hm he
  | host op args => exact ((kept mode k).callHost hs.1 hs.2.1 hs.2.2).fault hm he
  | conversation => exact ((kept mode k).converse hs.1 hs.2).fault hm he
  | stmt s => exact ((kept mode k).execute hs).fault hm he
  | stmts ss => exact ((kept mode k).executeAll hs).fault hm he
  | loop condition step body => exact ((kept mode k).loop hs).fault hm he
  | program ss => exact ((kept mode k).interpret hs.1 hs.2).fault hm he
  | text source => exact ((kept mode k).run hs.1 hs.2).fault hm he

end Scriptling
