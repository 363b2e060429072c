/-
  Instances — `this` is the instance that the method was read from.

  * `Session.Lived`: the machines that sessions come to, with all points on the way;
  * `History.Receives`: the instance that a method was read from, in the call of the method that
    the current scope belongs to;
  * `Session.this_means_receiver`: in sessions whose programs are resolved, each `this` evaluates
    to that instance, and a `this` outside of methods is refused.
-/
import Scriptling.Proofs.Activations

namespace Scriptling

open Eval

/-! ## Sessions -/

namespace Session

/-- The points that a step comes to when it starts with some fuel. -/
def Step.Comes (k : Nat) (s : Step) (m : Machine) : History := fun c =>
  ∃ c₀, s.Enters k m c₀ ∧ Reaches c₀ c

/-- **The machines that sessions of certain steps come to**, with the points on the way. -/
inductive Lived (allowed : Step → Prop) (m₀ : Machine) : History → Machine → Prop
  | start : Lived allowed m₀ (fun _ => False) m₀
  | step {H m s es m₁} : Lived allowed m₀ H m → allowed s → s.outcome m = some (es, m₁) →
      Lived allowed m₀ (fun c => H c ∨ s.Comes ample m c) m₁

end Session

namespace History

variable {H : History} {m m₁ : Machine}

/-- **The instance that a method was read from, for a `this` in the method.**  The scope is one
    of a call of the method as it was read, with what has been opened in the call since. -/
inductive Receives (H : History) (m : Machine) (site line : Nat) : Value → Prop
  | intro {bound v inner G} : H.Reads bound v → H.Opens bound G →
      (∀ F ∈ bound.scope.head?, F < G) → G < m.frames.frames.size →
      m.scope = inner ++ G :: bound.scope →
      (Part.function bound.function).Uses site line (inner.length + 1) →
      Receives H m site line v

/-- A history goes on with what a step comes to. -/
theorem Closed.step (h : H.Closed) (k : Nat) (s : Session.Step) (m : Machine) :
    History.Closed fun c => H c ∨ s.Comes k m c := by
  rintro c c' (hc | ⟨c₀, he, hr⟩) hcall
  · exact Or.inl (h c c' hc hcall)
  · exact Or.inr ⟨c₀, he, hr.tail hcall⟩

/-- **A step starts at sound points.** -/
theorem Holds.enters (h : H.Holds m) {s : Session.Step} (hs : s.Resolves) {k : Nat} {c : Point}
    (he : s.Enters k m c) (hc : H c) : H.Sound c := by
  cases he with
  | run => exact ⟨hc, h, trivial⟩
  | evaluate hl =>
    obtain ⟨hk, hp⟩ := h.load hl
    exact ⟨hc, hk.holds, ((hp _ rfl).piece (.head _) rfl).piece (.head _) rfl⟩
  | interpret => exact hs.elim
  | execute => exact hs.elim

/-- **A step keeps the machine.** -/
theorem Holds.outcome (closed : H.Closed) (h : H.Holds m) {s : Session.Step} (hs : s.Resolves)
    (hH : ∀ c, s.Comes Session.ample m c → H c) {es : List Error}
    (ho : s.outcome m = some (es, m₁)) : H.Holds m₁ := by
  have sound {c : Point} (he : s.Enters Session.ample m c) : H.Sound c :=
    h.enters hs he (hH c ⟨c, he, .refl⟩)
  cases s with
  | run source =>
    obtain ⟨⟨r, m'⟩, hr, he⟩ := Option.map_eq_some_iff.1 ho
    cases he
    exact ((upholding closed Session.ample).run (sound .run) r _ hr).1.holds
  | evaluate source =>
    obtain ⟨⟨r, m'⟩, hr, he⟩ := Option.map_eq_some_iff.1 ho
    cases he
    refine (Upholds.bind (R := fun _ _ => True) (.load h source) (fun program _ hl hk _ => ?_)
      r _ hr).1.holds
    split
    · exact ((upholding closed Session.ample).evaluate (sound (.evaluate hl))).bind
        fun v _ _ hk _ => .pure hk.holds trivial
    · exact .pure hk.holds trivial
  | interpret | execute => exact hs.elim

/-- **Before the first step there are only functions of the host on a machine.** -/
theorem holds_start (H : History) (library : List HostFunction) {host : Host} (sink : Sink)
    (time : Nat) (hh : host.Honest) : H.Holds (Session.start library host sink time) := by
  let onlyNatives : Kind := ⟨fun _ => False, fun _ => False, fun _ => True⟩
  have le (m : Machine) : onlyNatives.Le (H.kind m) := ⟨fun _ => False.elim, fun _ => False.elim,
    fun _ => id⟩
  have registered : ∀ (fs : List HostFunction) {m : Machine}, m.Holds onlyNatives →
      (fs.foldl Machine.register m).Holds onlyNatives := by
    intro fs
    induction fs with
    | nil => exact fun h => h
    | cons f fs ih =>
      intro m h
      have hset : Machine.Holds onlyNatives (m.register f) :=
        { h.set (F := globalFrame) (x := f.name)
            (v := .callable (.native ⟨m.nextIdentity, f.name, f.arity, f.operation⟩)) trivial with }
      exact ih hset
  have nothing : Machine.Holds onlyNatives { sink := sink } := by
    refine ⟨fun F x v hv => ?_, fun i x v hv => ?_, List.forall_mem_nil _⟩
    · cases F <;> simp [Frames.frame, Frames.root] at hv
    · simp at hv
  exact { ((registered library nothing).mono (le _)) with host := hh }

/-- **At a sound point, `this` evaluates to the instance that its method was read from.** -/
theorem Sound.this {k site line : Nat} (hs : H.Sound ⟨k + 1, .expr (.this site line), m⟩) :
    ∃ t place, H.Receives m site line (.object t place) ∧
      evaluate (k + 1) (.this site line) m = some (.ok (.object t place), m) := by
  have hf : H.Runs m m.scope (.expr (.this site line)) := hs.fits
  cases hf.uses site line 0 .here with
  | @intro bound v inner G hb ho hF hG hscope hu =>
    obtain ⟨-, hd⟩ := hb.records site line _ hu
    obtain ⟨F, base, hbase, hv⟩ := hb.frame
    -- the frame of the receiver stands right behind that of the call
    have hplace : m.scope[inner.length + 1 + 0]? = some F := by
      rw [hscope, hbase]
      simp
    have hread : Eval.read site ⟨"this", line⟩ m = some (.ok v, m) := by
      have hfound : m.binder site ⟨"this", line⟩ = .ok F := by
        unfold Machine.binder Frames.findAt
        simp [hd, hplace, Bindings.contains, hv]
      have hvalue : m.frames.value F ⟨"this", line⟩ = .ok v := by
        unfold Frames.value
        simp [hv]
      refine bind_eq_ok.2 ⟨m, m, rfl, ?_⟩
      rw [hfound]
      exact congrArg (fun r => Eval.ofExcept r m) hvalue
    have hreads := hb.reads
    cases hreads with
    | @intro _ _ _ _ t place =>
      exact ⟨t, place, .intro hb.reads ho hF hG hscope hu, hread⟩

end History

namespace Session

theorem Lived.holds {library : List HostFunction} {host : Host} {sink : Sink} {time : Nat}
    {H : History} {m : Machine} (hh : host.Honest)
    (h : Lived Step.Resolves (Session.start library host sink time) H m) :
    H.Closed ∧ H.Holds m := by
  induction h with
  | start => exact ⟨fun _ _ hc => hc.elim, History.holds_start _ library sink time hh⟩
  | @step H m s es m₁ _ hs ho ih =>
    have closed := ih.1.step ample s m
    exact ⟨closed, (ih.2.mono fun _ => Or.inl).outcome closed hs (fun _ => Or.inr) ho⟩

/-- **`this` is the instance that its method was read from.**  In sessions whose programs are
    resolved, every evaluation of a `this` yields the instance from which the innermost method
    around it was read, in the call of the method that has led there; and a program in which a
    `this` stands outside of methods is refused. -/
theorem this_means_receiver :
    (∀ {library : List HostFunction} {host : Host} {sink : Sink} {time : Nat} {H : History}
      {m : Machine} {s : Step} {k : Nat} {c : Point} {site line : Nat}, host.Honest →
      Lived Step.Resolves (start library host sink time) H m → s.Resolves → s.Comes k m c →
      c.job = .expr (.this site line) → 0 < c.fuel →
      ∃ t place, History.Receives (fun c => H c ∨ s.Comes k m c) c.machine site line
          (.object t place) ∧
        Eval.evaluate c.fuel (.this site line) c.machine =
          some (.ok (.object t place), c.machine)) ∧
    ∀ (globals : List String) (program : List Stmt) (site line n : Nat),
      (Part.stmts program).Uses site line n → ∃ e, resolve globals program = .error e := by
  constructor
  · intro library host sink time H m s k c site line hh hl hs hc hjob hfuel
    obtain ⟨closed, hm⟩ := hl.holds hh
    obtain ⟨c₀, he, hreaches⟩ := hc
    have closed' := closed.step k s m
    have entered : History.Sound (fun c => H c ∨ s.Comes k m c) c₀ :=
      (hm.mono fun _ => Or.inl).enters hs he (Or.inr ⟨c₀, he, .refl⟩)
    have hsound := entered.reaches closed' hreaches
    obtain ⟨fuel, job, machine⟩ := c
    obtain ⟨j, rfl⟩ := Nat.exists_eq_succ_of_ne_zero (Nat.ne_of_gt hfuel)
    cases hjob
    exact hsound.this
  · intro globals program site line n hu
    cases hr : resolve globals program with
    | error e => exact ⟨e, rfl⟩
    | ok ds =>
      have hp : (⟨globals, program, 0⟩ : Pass).Accepts ds := hr
      exact absurd hu (hp.not_uses site line n)

/-- A struct with a method that evaluates `this`, and a call of the method. -/
def methodProgram : String := "struct S \x7b f() \x7b this; \x7d \x7d S().f();"

/-- The method comes to be called. -/
def callsMethod : Bool :=
  match Eval.load methodProgram (start [] relay {} 0) with
  | some (.ok [s, .expression (.call callee _ [])], m₁) =>
    match Eval.execute 7 s m₁ with
    | some (.ok .normal, m₂) =>
      match Eval.evaluate 4 callee m₂ with
      | some (.ok (.callable (.closure ⟨_, .mk _ [] [.expression (.this _ _)] _, _⟩)), _) => true
      | _ => false
    | _ => false
  | _ => false

theorem this_means_receiver_method : ∃ c site line t place,
    (Step.run methodProgram).Comes 9 (start [] relay {} 0) c ∧
    c.job = .expr (.this site line) ∧ 0 < c.fuel ∧
    History.Receives (fun c => False ∨ (Step.run methodProgram).Comes 9 (start [] relay {} 0) c)
      c.machine site line (.object t place) ∧
    Eval.evaluate c.fuel (.this site line) c.machine =
      some (.ok (.object t place), c.machine) := by
  have checked : callsMethod = true := by decide +kernel
  unfold callsMethod at checked
  split at checked
  · next s callee closing m₁ hl =>
    split at checked
    · next m₂ hstruct =>
      split at checked
      · next identity title site line fn scope m₃ hcallee =>
        have hrest : Reaches ⟨9, .text methodProgram, start [] relay {} 0⟩
            ⟨1, .expr (.this site line), _⟩ :=
          .head (.run hl) (.head (.statements hstruct) (.head .statement (.head .expression
            (.head (.call hcallee rfl rfl) (.head (.body rfl) (.head .head
              (.single .expression)))))))
        have hc : (Step.run methodProgram).Comes 9 (start [] relay {} 0) _ := ⟨_, .run, hrest⟩
        have hs : (Step.run methodProgram).Resolves := trivial
        obtain ⟨t, place, hreceives, hthis⟩ :=
          this_means_receiver.1 relay_honest .start hs hc rfl Nat.one_pos
        exact ⟨_, site, line, t, place, hc, rfl, Nat.one_pos, hreceives, hthis⟩
      · cases checked
    · cases checked
  · cases checked

end Session

end Scriptling
