/-
  Sessions — machines from one step of a session to the next.

  Between the steps nothing runs, but what earlier programs have left behind can be called
  later, and declarations that an error cut short stay incomplete.

  * `Stands`, `Rests`: what holds of a machine between the steps;
  * `Rests.load`: what holds when a program has been loaded and is going to be run;
  * `Rests.step`: after a step the machine is at rest again, and the step ends only in errors
    that are permitted;
  * `Session.Reached.rests`: so it is all through a session.
-/
import Scriptling.Proofs.Points

namespace Scriptling

open World Eval

/-! ## Rest -/

/-- Nothing runs on a machine that is as a world says. -/
structure Stands (mode : Mode) (ps : List Pass) (W : World) (pending : List (Nat × String))
    (m : Machine) : Prop where
  agrees : Agrees mode W pending m
  scope : m.scope = globalScope
  /-- Only the programs that have been accepted can be called. -/
  passes : ¬ mode.hosted → ∀ p, W.passes p → p ∈ ps

/-- **What holds of a machine between the steps of a session.** -/
def Rests (mode : Mode) (ps : List Pass) (m : Machine) : Prop :=
  ∃ W pending, Stands mode ps W pending m

section

variable {mode : Mode} {ps : List Pass} {W V : World} {pending others : List (Nat × String)}
  {m m₁ : Machine}

theorem Stands.sees (h : Stands mode ps W pending m) : W.Sees globalScope :=
  ⟨List.cons_ne_nil _ _, fun _ hF => List.mem_singleton.1 hF ▸ h.agrees.root⟩

theorem Stands.after (h : Stands mode ps W pending m) (hV : Le mode W V)
    (hm : Agrees mode V others m₁) (hs : m₁.scope = m.scope) : Stands mode ps V others m₁ where
  agrees := hm
  scope := hs.trans h.scope
  passes hh p hp := h.passes hh p (hV.same hh p hp)

/-- A machine comes to rest after whatever was run on it. -/
theorem Stands.rests {α : Type} {act : Eval α} {Q : World → α → Prop} {r : Except Error α}
    (h : Stands mode ps W pending m) (ha : Safe mode W pending globalScope act Q)
    (hr : act m = some (r, m₁)) :
    Rests mode ps m₁ ∧ ∀ e ∈ Session.faults r, mode.Permits e := by
  obtain ⟨hs, V, hV, hrest⟩ := ha m h.scope h.agrees r m₁ hr
  have hscope : m₁.scope = m.scope := hs.trans h.scope.symm
  cases r with
  | ok a => exact ⟨⟨V, pending, h.after hV hrest.1 hscope⟩, List.forall_mem_nil _⟩
  | error e =>
    obtain ⟨he, abandoned, hm⟩ := hrest
    exact ⟨⟨V, abandoned, h.after hV hm hscope⟩, List.forall_mem_singleton.2 he⟩

/-- Sites are given out. -/
theorem Stands.skip (h : Stands mode ps W pending m) {site : Nat} (hs : m.nextSite ≤ site) :
    Stands mode ps W pending { m with nextSite := site } :=
  ⟨h.agrees.skip hs, h.scope, h.passes⟩

end

/-! ## The start -/

/-- A world in which nothing has happened. -/
def World.initial : World where
  passes _ := False
  size := 1
  admits _ _ := False
  bound _ _ := False
  begun _ _ := False
  unresolved _ := False

theorem Agrees.initial (mode : Mode) (sink : Sink) :
    Agrees mode .initial [] ({ sink := sink } : Machine) := by
  have nothing (F : Nat) : ({ sink := sink } : Machine).frames.frame F = .empty := by
    cases F <;> rfl
  have noFields (i : Nat) : ({ sink := sink } : Machine).objects[i]?.getD .empty = .empty := by
    rw [Array.getElem?_eq_none (Nat.zero_le i)]
    rfl
  exact {
    size := rfl
    root := Nat.one_pos
    bound := fun F x => by
      rw [nothing, Bindings.contains_empty]
      exact ⟨False.elim, fun h => nomatch h⟩
    admitted := fun _ _ _ h => h
    begun := fun _ _ _ h => h.elim
    pending := fun _ => List.forall_mem_nil _
    proper := fun _ h => h.elim
    recorded := fun _ _ _ _ _ h _ => h.elim
    known := fun _ h => h.elim
    unresolved := fun _ h => h.elim
    fresh := fun _ _ => rfl
    frames := fun F x v h => by
      rw [nothing, Bindings.get?_empty] at h
      cases h
    objects := fun i x v h => by
      rw [noFields, Bindings.get?_empty] at h
      cases h
    host := fun _ P E hP _ _ _ _ => hP .null trivial
    heard := List.forall_mem_nil _ }

section

variable {mode : Mode} {ps : List Pass} {W : World} {pending : List (Nat × String)} {m : Machine}

/-- A host function is registered. -/
theorem Stands.register (hh : mode.hosted) (h : Stands mode ps W pending m) (f : HostFunction) :
    Stands mode ps (W.bind globalFrame f.name) pending (m.register f) := by
  have hdefine := h.agrees.define (F := globalFrame) (x := f.name)
    (v := .callable (.native ⟨m.nextIdentity, f.name, f.arity, f.operation⟩)) h.agrees.root
    (fun hn => absurd hh hn) hh
  exact h.after (le_bind mode W globalFrame f.name) (hdefine.congr rfl rfl rfl rfl rfl rfl) rfl

theorem Rests.start (library : List HostFunction) {host : Host} (sink : Sink) (time : Nat)
    (hl : library = [] ∨ mode.hosted) (hh : mode.hosted → host.Honest) :
    Rests mode [] (Session.start library host sink time) := by
  have registered : ∀ (fs : List HostFunction) {W : World} {m : Machine},
      fs = [] ∨ mode.hosted → Stands mode [] W [] m →
      ∃ V, Stands mode [] V [] (fs.foldl Machine.register m) := by
    intro fs
    induction fs with
    | nil => exact fun _ h => ⟨_, h⟩
    | cons f fs ih =>
      intro W m hl h
      have hm : mode.hosted := hl.resolve_left nofun
      exact ih (Or.inr hm) (h.register hm f)
  obtain ⟨V, hV⟩ := registered library hl ⟨.initial mode sink, rfl, fun _ _ h => h.elim⟩
  exact ⟨V, [], { hV.agrees with host := hh }, hV.scope, hV.passes⟩

end

/-! ## New programs -/

/-- A program has been loaded and is going to be run. -/
structure Loaded (mode : Mode) (ps : List Pass) (m : Machine) (program : List Stmt) (W : World)
    (pending : List (Nat × String)) (m₁ : Machine) : Prop
    extends Stands mode (Pass.of m program :: ps) W pending m₁ where
  accepted : W.passes (Pass.of m program)
  placed : W.Placed mode globalScope (.stmts program)
  straight : strays program = []
  named : (Part.stmts program).Named fun x => TokenKind.keyword? x = none
  /-- The program has its sites to itself. -/
  apart : ∀ p, W.passes p → p = Pass.of m program ∨
    ∀ s ∈ (Part.stmts p.program).sites, s ∉ (Part.stmts program).sites
  /-- No declaration of the program has begun. -/
  older : ¬ mode.hosted → ∀ e ∈ pending, e.1 < (Pass.of m program).since
  globals : ∀ x, W.admits globalFrame x ↔
    x ∈ m.globalNames ∨ x ∈ Stmt.declaresAll program

section

variable {mode : Mode} {ps : List Pass} {m m₁ : Machine} {source : String}

/-- **A program that is accepted may be run; a text that is refused changes nothing.** -/
theorem Rests.load (h : Rests mode ps m) {r : Except Error (List Stmt)}
    (hl : Eval.load source m = some (r, m₁)) :
    match r with
    | .ok program => ∃ W pending, Loaded mode ps m program W pending m₁
    | .error e => Rests mode ps m₁ ∧ mode.Permits e := by
  obtain ⟨W, pending, hW⟩ := h
  obtain ⟨site, hle, hcase⟩ := Eval.load_eq hl
  rcases hcase with ⟨e, rfl, he, rfl⟩ | ⟨program, ds, rfl, hr, hd, hnamed, rfl⟩
  · refine ⟨⟨W, pending, hW.skip hle⟩, mode.permits_static ?_⟩
    rcases he with he | ⟨program, he⟩
    · exact he
    · exact isStatic_resolve he
  · have bound (x : String) (hx : W.bound globalFrame x) : x ∈ m.globalNames :=
      Bindings.mem_names.2 ((hW.agrees.bound globalFrame x).1 hx)
    have hseat : Agrees mode
        (W.reseat fun x => x ∈ m.globalNames ∨ x ∈ Stmt.declaresAll program) pending m :=
      hW.agrees.reseat fun _ x hx => Or.inl (bound x hx)
    have seat (x : String) : (W.reseat fun x => x ∈ m.globalNames ∨
        x ∈ Stmt.declaresAll program).admits globalFrame x ↔
        x ∈ m.globalNames ∨ x ∈ Stmt.declaresAll program := by
      simp [World.reseat, globalFrame]
    refine ⟨_, pending, { agrees := hseat.load hd hr, scope := hW.scope, passes := ?_
                          accepted := Or.inl rfl, placed := ?_, straight := strays_of_resolve hr
                          named := hnamed, apart := ?_, older := ?_, globals := seat }⟩
    · rintro hh p (rfl | hp)
      · exact List.mem_cons_self
      · exact List.mem_cons_of_mem _ (hW.passes hh p hp)
    · refine placed_program (p := Pass.of m program) (Or.inl rfl) hW.sees fun _ => ⟨rfl, ?_⟩
      exact fun x hx => ⟨globalFrame, rfl, (seat x).2 (Or.inr hx)⟩
    · rintro p (rfl | hp)
      · exact Or.inl rfl
      · refine Or.inr fun s hs hs' => ?_
        exact Nat.not_le_of_lt (hW.agrees.known p hp s hs) (hd.bounds s hs').1
    · intro hh e he
      exact Nat.lt_of_lt_of_eq (hW.agrees.pending hh e he) hW.agrees.size.symm

/-- **A program that is not resolved may be run, if that is allowed at all.** -/
theorem Rests.parse (h : Rests mode ps m) {r : Except Error (List Stmt)}
    (hp : Eval.parseText source m = some (r, m₁)) :
    match r with
    | .ok program => ∃ W pending, Stands mode ps W pending m₁ ∧
        (∀ s ∈ (Part.stmts program).sites, W.unresolved s) ∧
        W.Admits globalScope (Stmt.declaresAll program)
    | .error e => Rests mode ps m₁ ∧ mode.Permits e := by
  obtain ⟨W, pending, hW⟩ := h
  obtain ⟨site, hle, rfl, hstatic, hok⟩ := Eval.parseText_eq hp
  cases r with
  | error e => exact ⟨⟨W, pending, hW.skip hle⟩, mode.permits_static (hstatic e rfl)⟩
  | ok program =>
    have hseat : Agrees mode (W.reseat fun _ => True) pending m :=
      hW.agrees.reseat fun _ _ _ => trivial
    refine ⟨_, pending, ⟨hseat.leave (hok program rfl).1, hW.scope, hW.passes⟩,
      fun s hs => Or.inl hs, fun x _ => ⟨globalFrame, rfl, ?_⟩⟩
    simp [World.leave, World.reseat, globalFrame]

/-! ## Steps -/

theorem Loaded.suits {program : List Stmt} {W : World} {pending : List (Nat × String)}
    (h : Loaded mode ps m program W pending m₁) : W.Suits mode m₁.scope (.program program) := by
  rw [h.scope]
  exact ⟨h.placed, fun _ => h.straight⟩

/-- The expression that is all of a program. -/
theorem Loaded.expression {e : Expr} {W : World} {pending : List (Nat × String)}
    (h : Loaded mode ps m [.expression e] W pending m₁) :
    W.Placed mode globalScope (.expr e) :=
  (h.placed.piece h.agrees.proper (.head _) (binds_nil W _)).piece h.agrees.proper (.head _)
    (binds_nil W _)

/-- A program text is loaded, and something is done with the program. -/
theorem Rests.run {α : Type} {f : List Stmt → Eval α} {r : Except Error α} {m' : Machine}
    (h : Rests mode ps m)
    (hf : ∀ {program W pending m₁}, Loaded mode ps m program W pending m₁ →
      Safe mode W pending globalScope (f program) fun _ _ => True)
    (hr : (Eval.load source >>= f) m = some (r, m')) :
    Rests mode (Session.accepted source m ++ ps) m' ∧ ∀ e ∈ Session.faults r, mode.Permits e := by
  unfold Session.accepted
  rw [bind_apply] at hr
  rcases hl : Eval.load source m with _ | ⟨_ | program, m₁⟩
  · rw [hl] at hr; cases hr
  · rw [hl] at hr
    cases hr
    obtain ⟨hm, he⟩ := h.load hl
    exact ⟨hm, List.forall_mem_singleton.2 he⟩
  · rw [hl] at hr
    obtain ⟨W, pending, hm⟩ := h.load hl
    exact hm.toStands.rests (hf hm) hr

/-- A statement is executed, and its error, if there is one, is caught. -/
theorem Stands.attempt {k : Nat} {s : Stmt} {W : World} {pending : List (Nat × String)}
    {m m₁ : Machine} {r : Except Error Completion} (h : Stands mode ps W pending m)
    (hs : W.Placed mode globalScope (.stmt s)) (hr : Eval.execute k s m = some (r, m₁)) :
    (∃ V others, Le mode W V ∧ Stands mode ps V others m₁) ∧
      ∀ e ∈ Session.faults r, mode.Permits e := by
  obtain ⟨hscope, V, hV, hrest⟩ := (kept mode k).execute hs m h.scope h.agrees r m₁ hr
  have same : m₁.scope = m.scope := hscope.trans h.scope.symm
  cases r with
  | ok c => exact ⟨⟨V, pending, hV, h.after hV hrest.1 same⟩, List.forall_mem_nil _⟩
  | error e =>
    obtain ⟨he, abandoned, hm⟩ := hrest
    exact ⟨⟨V, abandoned, hV, h.after hV hm same⟩, List.forall_mem_singleton.2 he⟩

/-- Statements are executed one by one, going on after errors. -/
theorem Stands.attempts {k : Nat} : ∀ {ss : List Stmt} {W : World} {pending : List (Nat × String)}
    {m m' : Machine} {r : Except Error (List (Except Error Completion))},
    Stands mode ps W pending m → (∀ s ∈ ss, W.Placed mode globalScope (.stmt s)) →
    (ss.mapM fun s => Eval.attempt (Eval.execute k s)) m = some (r, m') →
    (∃ V others, Le mode W V ∧ Stands mode ps V others m') ∧
      ∀ e ∈ Session.allFaults r, mode.Permits e
  | [], W, pending, m, m', r, h, _, hr => by
    cases hr
    exact ⟨⟨W, pending, .refl mode W, h⟩, List.forall_mem_nil _⟩
  | s :: ss, W, pending, m, m', r, h, hss, hr => by
    rw [List.mapM_cons] at hr
    obtain ⟨c, m₁, hex, hr⟩ := attempt_bind_eq.1 hr
    obtain ⟨⟨V, others, hV, hm₁⟩, hc⟩ := h.attempt (hss s List.mem_cons_self) hex
    rw [bind_apply] at hr
    rcases hrest : (ss.mapM fun s => Eval.attempt (Eval.execute k s)) m₁ with _ | ⟨r₁, m₂⟩
    · rw [hrest] at hr; cases hr
    · obtain ⟨⟨U, others', hU, hm₂⟩, hcs⟩ := hm₁.attempts
        (fun s hs => (hss s (List.mem_cons_of_mem _ hs)).mono hV) hrest
      rw [hrest] at hr
      cases r₁ with
      | error e => cases hr; exact ⟨⟨U, others', hV.trans hU, hm₂⟩, hcs⟩
      | ok cs =>
        cases hr
        refine ⟨⟨U, others', hV.trans hU, hm₂⟩, ?_⟩
        intro e he
        rcases List.mem_append.1 he with he | he
        · exact hc e he
        · exact hcs e he

/-- The statements of a program that is not resolved may be executed one by one. -/
theorem placed_each (hraw : mode.raw) {scope : Chain} {W : World} (hW : W.Sees scope) :
    ∀ {ss : List Stmt}, (∀ s ∈ (Part.stmts ss).sites, W.unresolved s) →
      W.Admits scope (Stmt.declaresAll ss) → ∀ s ∈ ss, W.Placed mode scope (.stmt s)
  | s :: ss, hu, ha, t, ht => by
    have hsites : (Part.stmts (s :: ss)).sites = (Part.stmt s).sites ++ (Part.stmts ss).sites :=
      List.map_append
    rw [hsites] at hu
    obtain ⟨hus, huss⟩ := List.forall_mem_append.1 hu
    obtain ⟨has, hass⟩ := List.forall_mem_append.1 ha
    rcases List.mem_cons.1 ht with rfl | ht
    · exact ⟨.raw hraw hW hus, fun _ => has⟩
    · exact placed_each hraw hW huss hass t ht

/-- A program text is parsed, and something is done with the program. -/
theorem Rests.interpret {α : Type} {f : List Stmt → Eval α} {r : Except Error α} {m' : Machine}
    {errors : Except Error α → List Error} (he : ∀ e, errors (.error e) = [e]) (h : Rests mode ps m)
    (hf : ∀ {program W pending m₁}, Stands mode ps W pending m₁ →
      (∀ s ∈ (Part.stmts program).sites, W.unresolved s) →
      W.Admits globalScope (Stmt.declaresAll program) → f program m₁ = some (r, m') →
      Rests mode ps m' ∧ ∀ e ∈ errors r, mode.Permits e)
    (hr : (Eval.parseText source >>= f) m = some (r, m')) :
    Rests mode ps m' ∧ ∀ e ∈ errors r, mode.Permits e := by
  rw [bind_apply] at hr
  rcases hp : Eval.parseText source m with _ | ⟨_ | program, m₁⟩
  · rw [hp] at hr; cases hr
  · rw [hp] at hr
    cases hr
    obtain ⟨hm, hperm⟩ := h.parse hp
    rw [he]
    exact ⟨hm, List.forall_mem_singleton.2 hperm⟩
  · rw [hp] at hr
    obtain ⟨W, pending, hm, hu, ha⟩ := h.parse hp
    exact hf hm hu ha hr

/-- **After a step the machine is at rest again, and the step ends only in errors that are
    permitted.** -/
theorem Rests.step (h : Rests mode ps m) {s : Session.Step} (hs : s.Resolves ∨ mode.raw)
    {es : List Error} (ho : s.outcome m = some (es, m₁)) :
    Rests mode (s.passes m ++ ps) m₁ ∧ ∀ e ∈ es, mode.Permits e := by
  cases s with
  | run source =>
    obtain ⟨⟨r, m'⟩, hr, he⟩ := Option.map_eq_some_iff.1 ho
    cases he
    have hrun : (Eval.load source >>= Eval.interpret (Session.ample - 1)) m = some (r, m') := hr
    refine h.run (fun hm => ?_) hrun
    exact (kept mode _).interpret hm.placed fun _ => hm.straight
  | evaluate source =>
    obtain ⟨⟨r, m'⟩, hr, he⟩ := Option.map_eq_some_iff.1 ho
    cases he
    refine h.run (fun hm => ?_) hr
    split
    · exact ((kept mode _).evaluate hm.expression).bind fun _ _ _ _ => .pure trivial
    · exact .pure trivial
  | interpret source =>
    have hraw : mode.raw := hs.resolve_left id
    obtain ⟨⟨r, m'⟩, hr, he⟩ := Option.map_eq_some_iff.1 ho
    cases he
    refine h.interpret (fun _ => rfl) (fun hm hu ha hr => ?_) hr
    exact hm.rests ((kept mode _).interpret ⟨.raw hraw hm.sees hu, fun _ => ha⟩
      fun hn => absurd hraw hn) hr
  | execute source =>
    have hraw : mode.raw := hs.resolve_left id
    obtain ⟨⟨r, m'⟩, hr, he⟩ := Option.map_eq_some_iff.1 ho
    cases he
    refine h.interpret (fun _ => rfl) (fun hm hu ha hr => ?_) hr
    obtain ⟨⟨V, others, -, hm'⟩, hes⟩ := hm.attempts (placed_each hraw hm.sees hu ha) hr
    exact ⟨⟨V, others, hm'⟩, hes⟩

/-- **Where the host may interfere, a step starts to run only what may be run.** -/
theorem Rests.enters (hh : mode.hosted) (h : Rests mode ps m) {s : Session.Step}
    (hs : s.Resolves ∨ mode.raw) {k : Nat} {c : Point} (he : s.Enters k m c) :
    ∃ W pending, Agrees mode W pending c.machine ∧ W.Suits mode c.machine.scope c.job := by
  cases he with
  | run =>
    obtain ⟨W, pending, hm⟩ := h
    refine ⟨W, pending, hm.agrees, hh, ?_⟩
    dsimp only
    rw [hm.scope]
    exact hm.sees
  | evaluate hl =>
    obtain ⟨W, pending, hm⟩ := h.load hl
    refine ⟨W, pending, hm.agrees, ?_⟩
    dsimp only
    rw [hm.scope]
    exact hm.expression
  | interpret hp =>
    have hraw : mode.raw := hs.resolve_left id
    obtain ⟨W, pending, hm, hu, ha⟩ := h.parse hp
    refine ⟨W, pending, hm.agrees, ?_⟩
    dsimp only
    rw [hm.scope]
    exact ⟨⟨.raw hraw hm.sees hu, fun _ => ha⟩, fun hn => absurd hraw hn⟩
  | @execute _ _ before s after _ _ _ hp hb =>
    have hraw : mode.raw := hs.resolve_left id
    obtain ⟨W, pending, hm, hu, ha⟩ := h.parse hp
    have each : ∀ t ∈ before ++ s :: after, W.Placed mode globalScope (.stmt t) :=
      placed_each hraw hm.sees hu ha
    obtain ⟨⟨V, others, hV, hm'⟩, -⟩ := hm.attempts
      (fun t ht => each t (List.mem_append_left _ ht)) hb
    refine ⟨V, others, hm'.agrees, ?_⟩
    dsimp only
    rw [hm'.scope]
    exact (each s (List.mem_append_right _ List.mem_cons_self)).mono hV

/-- **A program text runs only what may be run, once it has been loaded.** -/
theorem Loaded.reaches {program : List Stmt} {W : World} {pending : List (Nat × String)} {k : Nat}
    {c : Point} {part : Part} (h : Loaded mode ps m program W pending m₁)
    (hl : Eval.load source m = some (.ok program, m₁)) (hc : Reaches ⟨k, .text source, m⟩ c)
    (hp : c.job.part? = some part) :
    ∃ others, Lands mode W others c ∧
      ∀ e ∈ others, e ∈ pending ∨ Awaits e ⟨k, .text source, m⟩ c := by
  rcases hc.of_text hl with rfl | ⟨j, hj, hjc⟩
  · cases hp
  · obtain ⟨others, hlands, hothers⟩ := h.agrees.reaches h.suits hjc
    exact ⟨others, hlands, fun e he => (hothers e he).imp_right fun ha => ha.head hj⟩

/-- **Machines rest all through a session.** -/
theorem Session.Reached.rests {allowed : Session.Step → Prop} {m₀ : Machine}
    (hallowed : ∀ s, allowed s → s.Resolves ∨ mode.raw) (h₀ : Rests mode [] m₀)
    (h : Session.Reached allowed m₀ ps m) : Rests mode ps m := by
  induction h with
  | start => exact h₀
  | step _ ha ho ih => exact (ih.step (hallowed _ ha) ho).1

end

end Scriptling
