/-
  Piecewise — a program run whole and in two pieces.

  * `Eval.submit`: what is done with a program when it has been parsed;
  * `Machine.Settled`: a machine between two programs, whose host functions only answer;
  * `Eval.interpret_append`: the statements of a program run one after the other;
  * `Session.run_piecewise`: a program whose first statements run through may as well be run
    without the others before them.
-/
import Scriptling.Proofs.Confinement
import Scriptling.Proofs.Fuel
import Scriptling.Proofs.Widening

namespace Scriptling

/-- Resolves a program, records the distances, and runs the program. -/
def Eval.submit (fuel : Nat) (program : List Stmt) : Eval Unit := do
  let distances ← ofExcept (resolve (← get).globalNames program)
  modify fun m => { m with distances := m.distances.recordAll distances }
  interpret fuel program

/-! ## Between programs -/

/-- **A machine between two programs**, which has nothing to do with the given sites. -/
structure Machine.Settled (S : Nat → Prop) (m : Machine) : Prop extends m.Apart S where
  scope : m.scope = globalScope
  root : 0 < m.frames.frames.size

/-- The sites that a machine has not given out. -/
def Machine.Unused (m : Machine) (site : Nat) : Prop := m.nextSite ≤ site

namespace Machine.Settled

variable {S T : Nat → Prop} {names : List String} {m m₁ m' : Machine}

theorem anti (h : m.Settled S) (hT : ∀ s, T s → S s) : m.Settled T := by
  have fewer : (Kind.apart S).Le (Kind.apart T) :=
    { closure := fun _ hc s hs ht => hc s hs (hT s ht)
      method := fun _ hc s hs ht => hc s hs (hT s ht)
      native := fun _ hn => hn }
  exact { h.toHolds.mono fewer with host := h.host, scope := h.scope, root := h.root }

theorem keeps (h : m.Settled S) (hk : m.Keeps S names m') : m'.Settled S :=
  { hk.apart with
    scope := hk.scope.trans h.scope
    root := Nat.lt_of_lt_of_le h.root hk.size }

/-- A host function is registered. -/
theorem register (h : m.Settled S) {f : HostFunction} (hf : f.operation.Answers) :
    (m.register f).Settled S :=
  { h.toHolds.set (F := globalFrame) (x := f.name)
      (v := .callable (.native ⟨m.nextIdentity, f.name, f.arity, f.operation⟩)) hf with
    host := h.host
    scope := h.scope
    root := Nat.lt_of_lt_of_eq h.root (Agrees.size_set _ _ _ _).symm }

theorem start {library : List HostFunction} {host : Host} (sink : Sink) (time : Nat)
    (hl : ∀ f ∈ library, f.operation.Answers) (hh : host.Answers) (S : Nat → Prop) :
    (Session.start library host sink time).Settled S := by
  have initial : Settled S { sink := sink } :=
    { frames := fun F x v h => by
        have nothing : ({ sink := sink } : Machine).frames.frame F = .empty := by cases F <;> rfl
        simp [nothing] at h
      objects := fun i x v h => by simp at h
      heard := List.forall_mem_nil _
      host := fun P hP _ _ _ => ⟨.ok .null, rfl, fun v hv => by cases hv; exact hP .null trivial⟩
      scope := rfl
      root := Nat.one_pos }
  have registered : ∀ (fs : List HostFunction) {m : Machine}, (∀ f ∈ fs, f.operation.Answers) →
      m.Settled S → (fs.foldl Machine.register m).Settled S := by
    intro fs
    induction fs with
    | nil => exact fun _ h => h
    | cons f fs ih =>
      intro m hfs h
      obtain ⟨hf, hfs⟩ := List.forall_mem_cons.1 hfs
      exact ih hfs (h.register hf)
  have done := registered library hl initial
  exact { done with host := hh }

/-- A text is parsed, and perhaps loaded: the functions on the machine do not have its sites. -/
theorem parse (h : m.Settled m.Unused) {source : String} {r : Except Error (List Stmt)}
    (hp : Eval.parseText source m = some (r, m₁)) : m₁.Settled m₁.Unused ∧
      ∀ program, r = .ok program → (Part.stmts program).Apart m₁.Unused := by
  obtain ⟨site, hle, rfl, -, hok⟩ := Eval.parseText_eq hp
  refine ⟨{ h.anti (T := fun s => site ≤ s) fun s hs => Nat.le_trans hle hs with }, ?_⟩
  intro program hr s hs hu
  exact Nat.not_le_of_lt ((hok program hr).1.bounds s hs).2 hu

theorem load (h : m.Settled m.Unused) {source : String} {r : Except Error (List Stmt)}
    (hl : Eval.load source m = some (r, m₁)) : m₁.Settled m₁.Unused ∧
      ∀ program, r = .ok program → (Part.stmts program).Apart m₁.Unused := by
  obtain ⟨site, hle, hcase⟩ := Eval.load_eq hl
  have later := h.anti (T := fun s => site ≤ s) fun s hs => Nat.le_trans hle hs
  rcases hcase with ⟨e, rfl, -, rfl⟩ | ⟨program, ds, rfl, -, hd, -, rfl⟩
  · exact ⟨{ later with }, nofun⟩
  · refine ⟨{ later with }, fun _ hr s hs hu => ?_⟩
    cases hr
    exact Nat.not_le_of_lt (hd.bounds s hs).2 hu

/-- Something is done with the program that a text is. -/
theorem of_program {α : Type} {first : Eval (List Stmt)} {f : List Stmt → Eval α} {Q : α → Prop}
    {r : Except Error α}
    (hfirst : ∀ r m₁, first m = some (r, m₁) → m₁.Settled m₁.Unused ∧
      ∀ program, r = .ok program → (Part.stmts program).Apart m₁.Unused)
    (hf : ∀ {S names program}, (Part.stmts program).Confined S names →
      Eval.Detached S names (f program) Q)
    (hr : (first >>= f) m = some (r, m')) : m'.Settled m'.Unused := by
  rw [Eval.bind_apply] at hr
  rcases hp : first m with _ | ⟨_ | program, m₁⟩
  · rw [hp] at hr; cases hr
  · rw [hp] at hr
    cases hr
    exact (hfirst _ _ hp).1
  · rw [hp] at hr
    obtain ⟨hm₁, happ⟩ := hfirst _ _ hp
    obtain ⟨hk, -⟩ := hf (happ program rfl).confined m₁ hm₁.toApart r m' hr
    exact (hm₁.keeps hk).anti fun s hs => by rwa [Machine.Unused, hk.nextSite] at hs

end Machine.Settled

namespace Eval

/-- Statements are executed one by one, going on after errors. -/
theorem Detached.attempts {S : Nat → Prop} {names : List String} (k : Nat) {program : List Stmt}
    (h : (Part.stmts program).Confined S names) :
    Detached S names (program.mapM fun s => Eval.attempt (Eval.execute k s)) fun _ => True := by
  induction program with
  | nil => exact .pure trivial
  | cons s ss ih =>
    rw [List.mapM_cons]
    exact ((confined S k).execute (h.piece (.head _))).attempt.bind fun _ _ =>
      (ih (h.piece (.tail _ (.head _)))).bind fun _ _ => .pure trivial

end Eval

namespace Session

/-- **After a step the machine is between two programs again.** -/
theorem Step.settled {s : Step} {m m₁ : Machine} {es : List Error} (h : m.Settled m.Unused)
    (ho : s.outcome m = some (es, m₁)) : m₁.Settled m₁.Unused := by
  cases s with
  | run source =>
    obtain ⟨⟨r, m'⟩, hr, he⟩ := Option.map_eq_some_iff.1 ho
    cases he
    have hrun : (Eval.load source >>= Eval.interpret (ample - 1)) m = some (r, m') := hr
    exact Machine.Settled.of_program (fun _ _ => h.load) (fun hp => (Eval.confined _ _).interpret hp) hrun
  | evaluate source =>
    obtain ⟨⟨r, m'⟩, hr, he⟩ := Option.map_eq_some_iff.1 ho
    cases he
    refine Machine.Settled.of_program (Q := fun _ => True) (fun _ _ => h.load) (fun {S names program} hp => ?_) hr
    split
    · next e =>
      have expression : (Part.expr e).Confined S names := (hp.piece (.head _)).piece (.head _)
      exact ((Eval.confined S _).evaluate expression).bind fun _ _ => .pure trivial
    · exact .pure trivial
  | interpret source =>
    obtain ⟨⟨r, m'⟩, hr, he⟩ := Option.map_eq_some_iff.1 ho
    cases he
    exact Machine.Settled.of_program (fun _ _ => h.parse) (fun hp => (Eval.confined _ _).interpret hp) hr
  | execute source =>
    obtain ⟨⟨r, m'⟩, hr, he⟩ := Option.map_eq_some_iff.1 ho
    cases he
    exact Machine.Settled.of_program (fun _ _ => h.parse) (fun hp => Eval.Detached.attempts _ hp) hr

/-- **So are the machines that sessions come to.** -/
theorem Reached.settled {allowed : Step → Prop} {m₀ m : Machine} {ps : List Pass}
    (h : Reached allowed m₀ ps m) (h₀ : ∀ S, m₀.Settled S) : m.Settled m.Unused := by
  induction h with
  | start => exact h₀ _
  | step _ _ ho ih => exact Step.settled ih ho

end Session

/-! ## Two pieces -/

namespace Eval

/-- Running a text is parsing it and handing the program over. -/
theorem run_eq_submit (k : Nat) (source : String) :
    Eval.run (k + 1) source = Eval.parseText source >>= Eval.submit k := by
  unfold Eval.run Eval.load Eval.submit
  simp only [bind_assoc, pure_bind]

theorem submit_apply (k : Nat) (program : List Stmt) (m : Machine) :
    Eval.submit k program m = match resolve m.globalNames program with
      | .ok ds => Eval.interpret k program (m.redirect (m.distances.recordAll ds))
      | .error e => some (.error e, m) := by
  have start : Eval.submit k program m = (Eval.ofExcept (resolve m.globalNames program) >>=
      fun ds => (modify fun m => { m with distances := m.distances.recordAll ds }) >>=
        fun _ => Eval.interpret k program : Eval Unit) m := rfl
  rw [start]
  cases resolve m.globalNames program <;> rfl

theorem flush_eq_ok {m m₁ : Machine} (h : Eval.flush m = some (.ok (), m₁)) : m₁ = m := by
  have start : Eval.flush m =
      (if m.sink.flushFails then throw (.output .flush) else pure () : Eval Unit) m := rfl
  rw [start] at h
  split at h <;> cases h
  rfl

/-- **The statements of a program run one after the other.** -/
theorem interpret_append {j n : Nat} {P : List Stmt} {m m₁ : Machine}
    (h : Eval.interpret j P m = some (.ok (), m₁)) (hn : j ≤ n) (Q : List Stmt) :
    Eval.interpret (n + P.length) (P ++ Q) m = Eval.interpret n Q m₁ := by
  induction P generalizing j m with
  | nil =>
    cases j with
    | zero => cases h
    | succ j =>
      rw [flush_eq_ok (show Eval.flush m = some (.ok (), m₁) from h)]
      simp
  | cons s ss ih =>
    cases j with
    | zero => cases h
    | succ j =>
      obtain ⟨c, m', hs, h⟩ := bind_eq_ok.1 h
      obtain ⟨u, m'', hc, h⟩ := bind_eq_ok.1 h
      have hs' := (extending (show j ≤ n + ss.length by omega)).execute s m _ hs
      have unfolded : Eval.interpret (n + (s :: ss).length) (s :: ss ++ Q) m =
          (Eval.execute (n + ss.length) s >>= fun c => Eval.settle c >>= fun _ =>
            Eval.interpret (n + ss.length) (ss ++ Q)) m := rfl
      rw [unfolded, bind_apply, hs']
      dsimp only
      rw [bind_apply, hc]
      exact ih h (Nat.le_of_succ_le hn)

end Eval

/-- A machine in the scope of the globals can come to bind the names that a program declares, and
    no others, among the globals. -/
theorem Machine.Settled.globals {S : Nat → Prop} {names : List String} {m m' : Machine}
    (h : m.Settled S) (hk : m.Keeps S names m') :
    ∀ x ∈ m'.globalNames, x ∈ m.globalNames ∨ x ∈ names := by
  intro x hx
  rcases hk.bound globalFrame h.root x (Bindings.mem_names.1 hx) with hx | ⟨-, hx⟩
  · exact Or.inl (Bindings.mem_names.2 hx)
  · exact Or.inr hx

namespace Session

/-- **A program may be fed whole or in pieces.**  If its first statements are accepted and run
    through, and the others are accepted then, the whole is accepted to begin with; and running it
    comes to the very machine, and ends in the very way, that running the others after the first
    comes to and ends in. -/
theorem run_piecewise :
    (∀ k source, Eval.run (k + 1) source = Eval.parseText source >>= Eval.submit k) ∧
    (∀ {library : List HostFunction} {host : Host} {sink : Sink} {time : Nat} {ps : List Pass}
      {m : Machine}, (∀ f ∈ library, f.operation.Answers) → host.Answers →
      Reached (fun _ => True) (start library host sink time) ps m → m.Settled m.Unused) ∧
    ∀ {m m₁ : Machine} {P Q : List Stmt} {ds : List (Nat × Nat)} {j : Nat},
      m.Settled (· ∈ (Part.stmts Q).sites) →
      (∀ s ∈ (Part.stmts P).sites, s ∉ (Part.stmts Q).sites) →
      Eval.submit j P m = some (.ok (), m₁) → resolve m₁.globalNames Q = .ok ds →
      (∃ ds, resolve m.globalNames (P ++ Q) = .ok ds) ∧
      ∀ r m₂, (∃ n, Eval.submit n (P ++ Q) m = some (r, m₂)) ↔
        ∃ k, Eval.submit k Q m₁ = some (r, m₂) := by
  refine ⟨Eval.run_eq_submit, fun hl hh h => h.settled (.start _ _ hl hh), ?_⟩
  intro m m₁ P Q ds₁ j hm hPQ hP hQ
  rw [Eval.submit_apply] at hP
  cases hr : resolve m.globalNames P with
  | error e => rw [hr] at hP; cases hP
  | ok ds =>
    rw [hr] at hP
    dsimp only at hP
    -- the first statements run on `a`, and on `b` when they are part of the whole
    generalize ha : m.redirect (m.distances.recordAll ds) = a at hP
    have hsettled : a.Settled (· ∈ (Part.stmts Q).sites) := by rw [← ha]; exact { hm with }
    have happ : (Part.stmts P).Apart (· ∈ (Part.stmts Q).sites) := hPQ
    obtain ⟨hk, -, hother⟩ :=
      (Eval.confined _ j).interpret happ.confined a hsettled.toApart _ _ hP
    have hnames : ∀ x ∈ m₁.globalNames, x ∈ m.globalNames ∨ x ∈ Stmt.declaresAll P := by
      have := hsettled.globals hk
      rwa [← ha] at this
    have hwhole := resolve_append hr hQ hnames
    refine ⟨⟨_, hwhole⟩, fun r m₂ => ?_⟩
    have hP' := hother _ (Distances.agreeOff_recordAll hQ a.distances)
    have whole (n : Nat) : Eval.submit n (P ++ Q) m =
        Eval.interpret n (P ++ Q) (a.redirect (a.distances.recordAll ds₁)) := by
      rw [Eval.submit_apply, hwhole, ← ha]
      simp [Machine.redirect, Distances.recordAll]
    have rest (k : Nat) : Eval.submit k Q m₁ =
        Eval.interpret k Q (m₁.redirect (a.distances.recordAll ds₁)) := by
      rw [Eval.submit_apply, hQ, hk.distances]
    simp only [whole, rest]
    constructor
    · rintro ⟨n, hn⟩
      have enough : n ≤ max n j + P.length := by omega
      refine ⟨max n j, ?_⟩
      rw [← Eval.interpret_append hP' (Nat.le_max_right n j)]
      exact (Eval.extending enough).interpret _ _ _ hn
    · rintro ⟨k, hk⟩
      refine ⟨max k j + P.length, ?_⟩
      rw [Eval.interpret_append hP' (Nat.le_max_right k j)]
      exact (Eval.extending (Nat.le_max_left k j)).interpret _ _ _ hk

/-- A host whose functions give back what they are given. -/
def echo : Host
  | .called _ (v :: _) :: _ => .done (.ok v)
  | _ => .done (.ok .null)

theorem echo_answers : echo.Answers := by
  intro P hP _ heard hheard
  unfold echo
  split
  · next v _ _ => exact ⟨.ok v, rfl, fun u hu => by
      cases hu; exact hheard _ List.mem_cons_self v List.mem_cons_self⟩
  · exact ⟨.ok .null, rfl, fun u hu => by cases hu; exact hP .null trivial⟩

/-- The statements of a text, with sites from a number on. -/
def statements (site : Nat) (source : String) : List Stmt :=
  match tokens source with
  | .ok ts => (parse site ts).1.toOption.getD []
  | .error _ => []

/-- The statements of a text are those that it parses to. -/
theorem exists_of_statements {site : Nat} {source : String}
    (h : (statements site source).isEmpty = false) : ∃ ts last, tokens source = .ok ts ∧
      parse site ts = (.ok (statements site source), last) := by
  unfold statements at h ⊢
  cases ht : tokens source with
  | error e => simp [ht] at h
  | ok ts =>
    simp only [ht] at h ⊢
    rcases hp : parse site ts with ⟨e | program, last⟩
    · simp [hp, Except.toOption] at h
    · exact ⟨ts, last, rfl, hp⟩

/-- The declaration of a variable and of a function. -/
def declarations : List Stmt := statements 0 "let a = 1; fn f() \x7b return a; \x7d"

/-- What is done with them later. -/
def uses : List Stmt := statements 9 "a = 2; print echo(f)(); let b = a;"

theorem run_piecewise_echo :
    ∃ m₁ m₂, Eval.submit 9 declarations (start [⟨"echo", 1, .custom 0⟩] echo {} 0) =
        some (.ok (), m₁) ∧
      Eval.submit 9 uses m₁ = some (.ok (), m₂) ∧
      ∃ n, Eval.submit n (declarations ++ uses) (start [⟨"echo", 1, .custom 0⟩] echo {} 0) =
        some (.ok (), m₂) := by
  generalize hm : start [⟨"echo", 1, .custom 0⟩] echo {} 0 = m
  have both : isDone ((Eval.submit 9 declarations >>= fun _ => Eval.submit 9 uses) m) = true := by
    rw [← hm]
    decide +kernel
  obtain ⟨m₂, h⟩ := exists_of_isDone both
  obtain ⟨_, m₁, h₁, h₂⟩ := Eval.bind_eq_ok.1 h
  refine ⟨m₁, m₂, h₁, h₂, ?_⟩
  have apart : ∀ s ∈ (Part.stmts declarations).sites, s ∉ (Part.stmts uses).sites := by
    decide +kernel
  have answers : ∀ f ∈ ([⟨"echo", 1, .custom 0⟩] : List HostFunction), f.operation.Answers :=
    List.forall_mem_singleton.2 trivial
  have reached : Reached (fun _ => True) (start [⟨"echo", 1, .custom 0⟩] echo {} 0) [] m :=
    hm ▸ .start
  have settled : m.Settled m.Unused := run_piecewise.2.1 answers echo_answers reached
  have accepted : ∃ ds, resolve m₁.globalNames uses = .ok ds := by
    rw [Eval.submit_apply] at h₂
    cases hr : resolve m₁.globalNames uses with
    | ok ds => exact ⟨ds, rfl⟩
    | error e => rw [hr] at h₂; cases h₂
  obtain ⟨ds, hds⟩ := accepted
  have fresh : ∀ s ∈ (Part.stmts uses).sites, m.Unused s := by
    rw [← hm]
    exact fun s _ => Nat.zero_le s
  exact ((run_piecewise.2.2 (settled.anti fresh) apart h₁ hds).2 _ _).2 ⟨9, h₂⟩

end Session

end Scriptling
