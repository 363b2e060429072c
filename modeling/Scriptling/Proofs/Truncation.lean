/-
  Truncation — printing where only so many bytes are accepted.

  * `Host.Forwards`: a host hands on the errors of what it calls and runs;
  * `Eval.Truncates`: where only so many bytes are accepted, a computation does what it does
    otherwise, up to the byte that is too much, and then ends in the error of the sink;
  * `Truncates.bind`, `Truncates.converse`: nothing that is run swallows that error or prints
    after it, neither the computation that goes on with the result nor the host;
  * `Session.full_sink_truncates`: a full sink only truncates what a program prints.
-/
import Scriptling.Proofs.Logics
import Scriptling.Proofs.Reach

namespace Scriptling

/-! ## Hosts -/

/-- **A host hands on, unchanged, the errors of what it calls and runs**, whatever it has heard of
    since it asked for that. -/
def Host.Forwards (host : Host) : Prop :=
  ∀ heard later : List HostEvent, heard <:+ later → ∀ e,
    (∀ c args, host heard = .call c args →
      host (.answered (.error e) :: later) = .done (.error e)) ∧
    ∀ source, host heard = .run source → host (.ran (.error e) :: later) = .done (.error e)

/-! ## Machines -/

/-- The first bytes are all bytes if there are no more of them. -/
private theorem extract_of_size_le {b : ByteArray} {n : Nat} (h : b.size ≤ n) :
    b.extract 0 n = b := by
  rw [← Nat.max_eq_left h, ByteArray.extract_zero_max_size]

namespace Machine

/-- The machine, where only so many bytes are accepted in all. -/
def capped (m : Machine) (n : Nat) : Machine := { m with sink := { m.sink with limit := some n } }

/-- All that is printed is accepted, and the host hands on errors. -/
structure Flows (m : Machine) : Prop where
  limit : m.sink.limit = none
  host : m.host.Forwards

/-- What has been printed and heard of stays so. -/
structure Continues (m m' : Machine) : Prop where
  limit : m'.sink.limit = m.sink.limit
  accepted : ∃ bytes, m'.sink.accepted = m.sink.accepted ++ bytes
  host : m'.host = m.host
  heard : m.heard <:+ m'.heard

/-- Nothing is printed. -/
theorem Continues.of_eq {m m' : Machine} (hs : m'.sink = m.sink) (hh : m'.host = m.host)
    (he : m.heard <:+ m'.heard) : m.Continues m' :=
  ⟨congrArg Sink.limit hs, ⟨.empty, by rw [hs, ByteArray.append_empty]⟩, hh, he⟩

theorem Continues.refl (m : Machine) : m.Continues m := .of_eq rfl rfl (List.suffix_refl _)

theorem Continues.trans {a b c : Machine} (h : a.Continues b) (h' : b.Continues c) :
    a.Continues c := by
  obtain ⟨bytes, hb⟩ := h.accepted
  obtain ⟨bytes', hb'⟩ := h'.accepted
  refine ⟨h'.limit.trans h.limit, ⟨bytes ++ bytes', ?_⟩, h'.host.trans h.host,
    h.heard.trans h'.heard⟩
  rw [hb', hb, ByteArray.append_assoc]

theorem Continues.flows {m m' : Machine} (h : m.Continues m') (hm : m.Flows) : m'.Flows :=
  ⟨h.limit.trans hm.limit, h.host ▸ hm.host⟩

theorem Continues.size_le {m m' : Machine} (h : m.Continues m') :
    m.sink.accepted.size ≤ m'.sink.accepted.size := by
  obtain ⟨bytes, hb⟩ := h.accepted
  rw [hb, ByteArray.size_append]
  omega

/-- The first bytes stay the first bytes. -/
theorem Continues.extract_eq {m m' : Machine} (h : m.Continues m') {n : Nat}
    (hn : n ≤ m.sink.accepted.size) :
    m'.sink.accepted.extract 0 n = m.sink.accepted.extract 0 n := by
  obtain ⟨bytes, hb⟩ := h.accepted
  rw [hb, ByteArray.extract_append, Nat.sub_eq_zero_of_le hn]
  simp

end Machine

/-! ## Computations -/

namespace Eval

variable {α β : Type} {m m' : Machine} {n : Nat}

/-- **What a computation comes to that would otherwise end with a result on a machine**: to the
    same, if its output is accepted, and else to the error of the sink, with the first bytes
    written. -/
inductive Capped (m : Machine) (n : Nat) (r : Except Error α) (m' : Machine) :
    Option (Except Error α × Machine) → Prop
  | fits : m'.sink.accepted.size ≤ n → Capped m n r m' (some (r, m'.capped n))
  | overflows {m₁} : n < m'.sink.accepted.size →
      m₁.sink.accepted = m'.sink.accepted.extract 0 n → m₁.host = m.host → m.heard <:+ m₁.heard →
      Capped m n r m' (some (.error (.output .full), m₁))

/-- What was run before has stayed within what is accepted. -/
theorem Capped.after {m₁ : Machine} {r : Except Error α} {x : Option (Except Error α × Machine)}
    (hm : m.Continues m₁) (h : Capped m₁ n r m' x) : Capped m n r m' x := by
  cases h with
  | fits hn => exact .fits hn
  | overflows hn hb hh he => exact .overflows hn hb (hh.trans hm.host) (hm.heard.trans he)

/-- **A computation does the same where only so many bytes are accepted**, up to the byte that is
    too much. -/
def Truncates (act : Eval α) : Prop :=
  ∀ m r m', m.Flows → act m = some (r, m') → m.Continues m' ∧
    ∀ n, m.sink.accepted.size ≤ n → Capped m n r m' (act (m.capped n))

namespace Truncates

/-! ### Composition -/

/-- A computation that ends at once, and on the machine that it is given. -/
theorem of_ended {act : Eval α} {r : Except Error α} (h : ∀ m, act m = some (r, m)) :
    Truncates act := by
  intro m r m' hm hr
  rw [h] at hr
  cases hr
  refine ⟨.refl m, fun n hn => ?_⟩
  rw [h]
  exact .fits hn

theorem pure (a : α) : Truncates (Pure.pure a : Eval α) := .of_ended fun _ => rfl

theorem throw (e : Error) : Truncates (throw e : Eval α) := .of_ended fun _ => rfl

theorem ofExcept : ∀ r : Except Error α, Truncates (Eval.ofExcept r)
  | .ok a => .pure a
  | .error e => .throw e

theorem exhausted : Truncates (Eval.exhausted : Eval α) := fun _ _ _ _ hr => nomatch hr

theorem bind {act : Eval α} {f : α → Eval β} (h : Truncates act) (hf : ∀ a, Truncates (f a)) :
    Truncates (act >>= f) := by
  intro m r m' hm hr
  rw [bind_apply] at hr
  rcases hact : act m with _ | ⟨e | a, m₁⟩
  · rw [hact] at hr; cases hr
  · rw [hact] at hr
    cases hr
    obtain ⟨hc, hcap⟩ := h m _ _ hm hact
    refine ⟨hc, fun n hn => ?_⟩
    rw [bind_apply]
    have hcapped := hcap n hn
    generalize act (m.capped n) = x at hcapped
    cases hcapped with
    | fits hn => exact .fits hn
    | overflows hn hb hh he => exact .overflows hn hb hh he
  · rw [hact] at hr
    obtain ⟨hc, hcap⟩ := h m _ _ hm hact
    obtain ⟨hc', hcap'⟩ := hf a m₁ r m' (hc.flows hm) hr
    refine ⟨hc.trans hc', fun n hn => ?_⟩
    rw [bind_apply]
    have hcapped := hcap n hn
    generalize act (m.capped n) = x at hcapped
    cases hcapped with
    | fits hn => exact (hcap' n hn).after hc
    | overflows hn hb hh he =>
      exact .overflows (Nat.lt_of_lt_of_le hn hc'.size_le)
        (hb.trans (hc'.extract_eq (Nat.le_of_lt hn)).symm) hh he

/-- What a computation learns from the machine at its start, but for where the output goes. -/
theorem get {f : Machine → Eval α} (h : ∀ m, Truncates (f m))
    (hf : ∀ m sink, f { m with sink := sink } = f m) : Truncates (MonadState.get >>= f) := by
  intro m r m' hm hr
  obtain ⟨hc, hcap⟩ := h m m r m' hm hr
  refine ⟨hc, fun n hn => ?_⟩
  have same : (MonadState.get >>= f) (m.capped n) = f m (m.capped n) :=
    congrFun (hf m { m.sink with limit := some n }) (m.capped n)
  rw [same]
  exact hcap n hn

/-- A step that prints nothing. -/
theorem modify {f : Machine → α × Machine}
    (hf : ∀ m sink, f { m with sink := sink } = ((f m).1, { (f m).2 with sink := sink }))
    (hs : ∀ m, (f m).2.sink = m.sink) (hh : ∀ m, (f m).2.host = m.host)
    (he : ∀ m, m.heard <:+ (f m).2.heard) : Truncates (modifyGet f) := by
  intro m r m' hm hr
  cases hr
  refine ⟨.of_eq (hs m) (hh m) (he m), fun n hn => ?_⟩
  have ended : (modifyGet f : Eval α) (m.capped n) = some (.ok (f m).1, (f m).2.capped n) := by
    have stepped : (modifyGet f : Eval α) (m.capped n) =
        some (.ok (f (m.capped n)).1, (f (m.capped n)).2) := rfl
    rw [stepped, Machine.capped, hf, Machine.capped, hs]
  rw [ended]
  exact .fits (hs m ▸ hn)

/-- A computation in a new scope. -/
theorem inside {base : Chain} {b : Bindings Value} {act : Eval α} (h : Truncates act) :
    Truncates (newScope base b >>= fun scope => Eval.within scope act) := by
  intro m r m' hm hr
  obtain ⟨m₁, hact, rfl⟩ := inside_eq.1 hr
  have entered : Machine.Flows { m with
      scope := m.frames.frames.size :: base, frames := (m.frames.child base b).2 } :=
    ⟨hm.limit, hm.host⟩
  obtain ⟨hc, hcap⟩ := h _ r m₁ entered hact
  refine ⟨⟨hc.limit, hc.accepted, hc.host, hc.heard⟩, fun n hn => ?_⟩
  have ended : (newScope base b >>= fun scope => Eval.within scope act) (m.capped n) =
      (act (Machine.capped { m with
        scope := m.frames.frames.size :: base, frames := (m.frames.child base b).2 } n)).map
          fun o => (o.1, { o.2 with scope := m.scope }) := inside_apply
  rw [ended]
  have hcapped := hcap n hn
  generalize act _ = x at hcapped
  cases hcapped with
  | fits hn => exact .fits hn
  | overflows hn hb hh he => exact .overflows hn hb hh he

/-! ### Elementary steps -/

theorem define (x : String) (v : Value) : Truncates (Eval.define x v) :=
  .modify (fun _ _ => rfl) (fun _ => rfl) (fun _ => rfl) fun _ => List.suffix_refl _

theorem write (site : Nat) (name : Name) (v : Value) : Truncates (Eval.write site name v) :=
  .get (fun _ => .bind (.ofExcept _) fun _ =>
    .modify (fun _ _ => rfl) (fun _ => rfl) (fun _ => rfl) fun _ => List.suffix_refl _)
    fun _ _ => rfl

theorem assign (name : Name) (v : Value) : Truncates (Eval.assign name v) :=
  .get (fun _ => .bind (.ofExcept _) fun _ =>
    .modify (fun _ _ => rfl) (fun _ => rfl) (fun _ => rfl) fun _ => List.suffix_refl _)
    fun _ _ => rfl

theorem hear (event : HostEvent) : Truncates (Eval.hear event) :=
  .modify (fun _ _ => rfl) (fun _ => rfl) (fun _ => rfl) fun _ => List.suffix_cons _ _

/-- Where all is accepted, the whole text is printed; else as much of it as there is room for. -/
theorem print (text : String) : Truncates (Eval.print text) := by
  intro m r m' hm hr
  generalize hbytes : (text ++ "\n").toUTF8 = bytes
  have whole : m.sink.write (text ++ "\n") =
      ({ m.sink with accepted := m.sink.accepted ++ bytes }, true) := by
    simp only [Sink.write, hm.limit, hbytes]
  have printed : Eval.print text m =
      some (.ok (), { m with sink := { m.sink with accepted := m.sink.accepted ++ bytes } }) := by
    have written : Eval.print text m = (unless (m.sink.write (text ++ "\n")).2 do
          MonadExcept.throw (.output .full) : Eval Unit)
        { m with sink := (m.sink.write (text ++ "\n")).1 } := rfl
    rw [written, whole]
    rfl
  rw [printed] at hr
  cases hr
  refine ⟨⟨rfl, ⟨bytes, rfl⟩, rfl, List.suffix_refl _⟩, fun n hn => ?_⟩
  have cut : (m.capped n).sink.write (text ++ "\n") =
      ({ (m.capped n).sink with
          accepted := m.sink.accepted ++ bytes.extract 0 (n - m.sink.accepted.size) },
        decide (bytes.size ≤ n - m.sink.accepted.size)) := by
    unfold Sink.write Machine.capped
    rw [hbytes]
  have written : Eval.print text (m.capped n) =
      (unless ((m.capped n).sink.write (text ++ "\n")).2 do
          MonadExcept.throw (.output .full) : Eval Unit)
        { m.capped n with sink := ((m.capped n).sink.write (text ++ "\n")).1 } := rfl
  rw [written, cut]
  by_cases hroom : bytes.size ≤ n - m.sink.accepted.size
  · rw [extract_of_size_le hroom, decide_eq_true hroom]
    refine .fits ?_
    simp only [ByteArray.size_append]
    omega
  · rw [decide_eq_false hroom]
    refine .overflows ?_ ?_ rfl (List.suffix_refl _)
    · simp only [ByteArray.size_append]
      omega
    · simp only [ByteArray.extract_append, Nat.zero_sub]
      rw [extract_of_size_le hn]

theorem flush : Truncates Eval.flush := by
  intro m r m' hm hr
  have start (m : Machine) : Eval.flush m =
      (if m.sink.flushFails then MonadExcept.throw (.output .flush)
        else Pure.pure () : Eval Unit) m := rfl
  rw [start] at hr
  have ended : Truncates
      (if m.sink.flushFails then MonadExcept.throw (.output .flush)
        else Pure.pure () : Eval Unit) := by
    split
    · exact .throw _
    · exact .pure _
  obtain ⟨hc, hcap⟩ := ended m r m' hm hr
  exact ⟨hc, hcap⟩

theorem parseText (source : String) : Truncates (Eval.parseText source) :=
  .bind (.ofExcept _) fun _ => .get (fun _ => .bind
    (.modify (fun _ _ => rfl) (fun _ => rfl) (fun _ => rfl) fun _ => List.suffix_refl _)
    fun _ => .ofExcept _) fun _ _ => rfl

theorem load (source : String) : Truncates (Eval.load source) :=
  .bind (.parseText source) fun _ => .get (fun _ => .bind (.ofExcept _) fun _ => .bind
    (.modify (fun _ _ => rfl) (fun _ => rfl) (fun _ => rfl) fun _ => List.suffix_refl _)
    fun _ => .pure _) fun _ _ => rfl

/-! ### The host -/

theorem converse_apply (k : Nat) (m : Machine) :
    Eval.converse (k + 1) m = (match m.host m.heard with
      | .done outcome => Eval.ofExcept outcome
      | .call c args => do
        let outcome ← Eval.attempt (Eval.call k c args)
        Eval.hear (.answered outcome)
        Eval.converse k
      | .run source => do
        let outcome ← Eval.attempt (Eval.run k source)
        Eval.hear (.ran outcome)
        Eval.converse k : Eval Value) m := rfl

theorem attempt_bind_apply {β : Type} (act : Eval α) (f : Except Error α → Eval β) (m : Machine) :
    (Eval.attempt act >>= f) m = match act m with
      | none => none
      | some (r, m₁) => f r m₁ := by
  rw [bind_apply, Eval.attempt]
  cases act m <;> rfl

/-- The host hears of the error that something has ended in that it wanted, and hands it on. -/
theorem hear_converse {event : HostEvent} {e : Error} {m : Machine} (k : Nat)
    (h : m.host (event :: m.heard) = .done (.error e)) :
    (Eval.hear event >>= fun _ => Eval.converse (k + 1)) m =
      some (.error e, m.hear event) := by
  have next : (Eval.hear event >>= fun _ => Eval.converse (k + 1)) m =
      Eval.converse (k + 1) (m.hear event) := rfl
  have hears : (m.hear event).host (m.hear event).heard = .done (.error e) := h
  rw [next, converse_apply, hears]
  rfl

/-- The host hears of what has come of something that it wanted, and goes on.  If that has ended in
    the error of the sink, so does the function of the host. -/
theorem resume {act : Eval α} {event : Except Error α → HostEvent} {k : Nat} (h : Truncates act)
    (hk : Truncates (Eval.converse k)) {r : Except Error Value} (hm : m.Flows)
    (hforward : ∀ later, m.heard <:+ later → ∀ e,
      m.host (event (.error e) :: later) = .done (.error e))
    (hr : (Eval.attempt act >>= fun outcome => Eval.hear (event outcome) >>= fun _ =>
      Eval.converse k) m = some (r, m')) :
    m.Continues m' ∧ ∀ n, m.sink.accepted.size ≤ n → Capped m n r m'
      ((Eval.attempt act >>= fun outcome => Eval.hear (event outcome) >>= fun _ =>
        Eval.converse k) (m.capped n)) := by
  obtain ⟨r₁, m₁, hact, hr⟩ := attempt_bind_eq.1 hr
  obtain ⟨hc, hcap⟩ := h m _ _ hm hact
  obtain ⟨hc', hcap'⟩ := (bind (hear (event r₁)) fun _ => hk) m₁ r m' (hc.flows hm) hr
  refine ⟨hc.trans hc', fun n hn => ?_⟩
  rw [attempt_bind_apply]
  have hcapped := hcap n hn
  generalize act (m.capped n) = x at hcapped
  cases hcapped with
  | fits hn => exact (hcap' n hn).after hc
  | @overflows m₂ hn hb hh he =>
    -- there is fuel for the host to go on with, since it has gone on with as much
    obtain ⟨j, rfl⟩ : ∃ j, k = j + 1 := by
      cases k with
      | zero => cases hr
      | succ j => exact ⟨j, rfl⟩
    have ended : (Eval.hear (event (.error (.output .full))) >>= fun _ =>
          Eval.converse (j + 1)) m₂ =
        some (.error (.output .full), m₂.hear (event (.error (.output .full)))) :=
      hear_converse j (hh ▸ hforward _ he _)
    dsimp only
    rw [ended]
    exact .overflows (Nat.lt_of_lt_of_le hn hc'.size_le)
      (hb.trans (hc'.extract_eq (Nat.le_of_lt hn)).symm) hh (he.trans (List.suffix_cons _ _))

theorem converse {k : Nat} (hcall : ∀ c args, Truncates (Eval.call k c args))
    (hrun : ∀ source, Truncates (Eval.run k source)) (h : Truncates (Eval.converse k)) :
    Truncates (Eval.converse (k + 1)) := by
  intro m r m' hm hr
  have same (n : Nat) : (m.capped n).host (m.capped n).heard = m.host m.heard := rfl
  simp only [converse_apply, same] at hr ⊢
  cases hmove : m.host m.heard with
  | done outcome =>
    rw [hmove] at hr
    exact ofExcept outcome m r m' hm hr
  | call c args =>
    rw [hmove] at hr
    exact resume (hcall c args) h hm (fun later hl e => (hm.host _ later hl e).1 c args hmove) hr
  | run source =>
    rw [hmove] at hr
    exact resume (hrun source) h hm (fun later hl e => (hm.host _ later hl e).2 source hmove) hr

theorem logic : Logic Truncates where
  exhausted := .exhausted
  pure := .pure
  throw := .throw
  bind := .bind
  get := .get
  inside := .inside
  freshIdentity := .get (fun _ => .bind
    (.modify (fun _ _ => rfl) (fun _ => rfl) (fun _ => rfl) fun _ => List.suffix_refl _)
    fun _ => .pure _) fun _ _ => rfl
  newScope _ _ := .modify (fun _ _ => rfl) (fun _ => rfl) (fun _ => rfl) fun _ => List.suffix_refl _
  define := .define
  read _ _ := .get (fun _ => .ofExcept _) fun _ _ => rfl
  write := .write
  assign := .assign
  print := .print
  flush := .flush
  instantiate _ :=
    .modify (fun _ _ => rfl) (fun _ => rfl) (fun _ => rfl) fun _ => List.suffix_refl _
  setField _ _ _ :=
    .modify (fun _ _ => rfl) (fun _ => rfl) (fun _ => rfl) fun _ => List.suffix_refl _
  hear := .hear
  tick := .modify (fun _ _ => rfl) (fun _ => rfl) (fun _ => rfl) fun _ => List.suffix_refl _
  load := .load
  converse := .converse

end Truncates

/-! ## What is printed -/

/-- **A full sink only truncates what a computation prints**: it would otherwise end with the
    result `r` on the machine `m'`; where so many bytes are accepted, it prints the first of them,
    and ends in the same way if that is all, and in the error of the sink if it is not. -/
def OnlyTruncates (act : Eval α) (m : Machine) (r : Except Error α) (m' : Machine) : Prop :=
  ∃ printed, m'.sink.accepted = m.sink.accepted ++ printed ∧ ∀ room,
    ∃ r₁ m₁, act (m.capped (m.sink.accepted.size + room)) = some (r₁, m₁) ∧
      m₁.sink.accepted = m.sink.accepted ++ printed.extract 0 (min room printed.size) ∧
      (printed.size ≤ room → r₁ = r ∧ m₁ = m'.capped (m.sink.accepted.size + room)) ∧
      (room < printed.size → r₁ = .error (.output .full))

theorem Truncates.onlyTruncates {act : Eval α} {r : Except Error α} (h : Truncates act)
    (hm : m.Flows) (hr : act m = some (r, m')) : OnlyTruncates act m r m' := by
  obtain ⟨hc, hcap⟩ := h m r m' hm hr
  obtain ⟨printed, hprinted⟩ := hc.accepted
  refine ⟨printed, hprinted, fun room => ?_⟩
  have size : m'.sink.accepted.size = m.sink.accepted.size + printed.size := by
    rw [hprinted, ByteArray.size_append]
  have hcapped := hcap _ (Nat.le_add_right m.sink.accepted.size room)
  generalize act (m.capped (m.sink.accepted.size + room)) = x at hcapped
  cases hcapped with
  | fits hn =>
    have hroom : printed.size ≤ room := by omega
    refine ⟨r, _, rfl, ?_, fun _ => ⟨rfl, rfl⟩, fun h => absurd hroom (Nat.not_le.2 h)⟩
    rw [Nat.min_eq_right hroom, ByteArray.extract_zero_size]
    exact hprinted
  | overflows hn hb =>
    have hroom : room < printed.size := by omega
    refine ⟨_, _, rfl, ?_, fun h => absurd hroom (Nat.not_lt.2 h), fun _ => rfl⟩
    rw [hb, hprinted, Nat.min_eq_left (Nat.le_of_lt hroom), ByteArray.extract_append,
      extract_of_size_le (Nat.le_add_right _ _), Nat.zero_sub, Nat.add_sub_cancel_left]

end Eval

namespace Session

open Eval

/-- **A full sink only truncates what is printed**: by the text of a program, by its statements, and
    by all else that can be run. -/
theorem full_sink_truncates {m m' : Machine} (hm : m.Flows) (k : Nat) :
    (∀ source r, Eval.run k source m = some (r, m') →
      OnlyTruncates (Eval.run k source) m r m') ∧
    ∀ program r, Eval.interpret k program m = some (r, m') →
      OnlyTruncates (Eval.interpret k program) m r m' := by
  have pervades : Pervades Truncates k := Truncates.logic.pervades k
  exact ⟨fun source r hr => (pervades.run source).onlyTruncates hm hr,
    fun program r hr => (pervades.interpret program).onlyTruncates hm hr⟩

/-- A program that prints from a function that a function of the host calls. -/
def printingProgram : String := "print 1; relay(fn () \x7b print 2; print 3; \x7d); print 4;"

theorem full_sink_truncates_relay :
    ∃ m', Eval.run 20 printingProgram (start [⟨"relay", 1, .custom 0⟩] relay {} 0) =
        some (.ok (), m') ∧
      OnlyTruncates (Eval.run 20 printingProgram) (start [⟨"relay", 1, .custom 0⟩] relay {} 0)
        (.ok ()) m' := by
  have checked : isDone (Eval.run 20 printingProgram
      (start [⟨"relay", 1, .custom 0⟩] relay {} 0)) = true := by
    decide +kernel
  obtain ⟨m', hr⟩ := exists_of_isDone checked
  have forwards : relay.Forwards := by
    refine fun heard later _ e => ⟨fun _ _ _ => rfl, fun source h => ?_⟩
    unfold relay at h
    split at h <;> cases h
  exact ⟨m', hr, (full_sink_truncates ⟨rfl, forwards⟩ 20).1 _ _ hr⟩

end Session

end Scriptling
