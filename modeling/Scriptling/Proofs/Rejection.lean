/-
  Rejection — programs that are not accepted leave no trace.

  * `Machine.Modest`: a machine whose host functions run no program texts and end in no errors
    that are found before anything is executed;
  * `Eval.interpret_dynamic`: what is executed on such a machine ends in no such error;
  * `Session.rejection_traceless`: so a run that ends in one has done nothing, and a script that
    is not accepted prints its error and nothing else.
-/
import Mathlib
import Scriptling.Directory
import Scriptling.Proofs.Regimes

namespace Scriptling

/-! ## Hosts and machines -/

/-- The error comes up only while something is executed. -/
def Error.IsDynamic (e : Error) : Prop := e.isStatic = false

/-- Any functions of programs, and host functions that run no program texts. -/
def Kind.textless : Kind := ⟨fun _ => True, fun _ => True, fun n => n.operation ≠ .nested⟩

/-- A host that runs no program texts itself, has no functions that do, and does not make up errors
    that are found before anything is executed. -/
def Host.Modest (host : Host) : Prop :=
  ∀ heard, (∀ event ∈ heard, event.Shows Kind.textless.Admits Error.IsDynamic) →
    (host heard).Uses Kind.textless.Admits Error.IsDynamic ∧ ∀ source, host heard ≠ .run source

/-- **A machine whose host functions run no program texts and end in no static errors.** -/
structure Machine.Modest (m : Machine) : Prop extends m.Holds .textless where
  faults : ∀ event ∈ m.heard, event.Shows (fun _ => True) Error.IsDynamic
  host : m.host.Modest

theorem HostEvent.shows_and {P : Value → Prop} {E : Error → Prop} {event : HostEvent} :
    event.Shows P E ↔ event.Shows P (fun _ => True) ∧ event.Shows (fun _ => True) E := by
  cases event with
  | called key args => simp [Shows]
  | answered outcome | ran outcome => cases outcome <;> simp [Shows]

theorem relay_modest : relay.Modest := by
  intro heard hheard
  unfold relay
  split
  · next c args _ => exact ⟨List.forall_mem_cons.1 (hheard _ List.mem_cons_self), nofun⟩
  · next outcome _ =>
    have hout := hheard _ List.mem_cons_self
    refine ⟨?_, nofun⟩
    cases outcome with
    | ok v => exact hout
    | error e => exact hout
  · exact ⟨trivial, nofun⟩

/-- What comes up where nothing is loaded. -/
def Regime.dynamic : Regime where
  machine m := m.Modest
  value _ v := Kind.textless.Admits v
  scope _ _ := True
  error := Error.IsDynamic
  hosted := True

theorem Error.IsRuntime.isDynamic {e : Error} (h : e.IsRuntime) : e.IsDynamic := by
  obtain ⟨line, fault, rfl⟩ := h
  rfl

theorem Regime.stable_dynamic : Regime.dynamic.Stable where
  value_mono _ hv := hv
  scope_mono _ hc := hc
  plain hv := Kind.admits_plain hv
  closure := Iff.rfl
  template := Iff.rfl
  native hn := ⟨trivial, hn⟩
  runtime he := he.isDynamic
  output _ := rfl
  other {m m'} hm hf _ ho hh he := by
    have hholds : m'.Holds .textless :=
      ⟨by rw [hf]; exact hm.frames, by rw [ho]; exact hm.objects, by rw [he]; exact hm.heard⟩
    exact { hholds with faults := by rw [he]; exact hm.faults, host := by rw [hh]; exact hm.host }
  current _ := trivial
  enter {m base b} hm _ hb := { hm.toHolds.push hb base with faults := hm.faults, host := hm.host }
  leave _ _ hm' := { hm' with }
  read hm _ hv := hm.frames _ _ _ hv
  set hm _ hv := { hm.toHolds.set hv with faults := hm.faults, host := hm.host }
  object hm ht := ⟨{ hm.toHolds.pushObject with faults := hm.faults, host := hm.host }, ht⟩
  field hm _ hv := hm.objects _ _ _ hv
  setField hm _ hv := { hm.toHolds.setField hv with faults := hm.faults, host := hm.host }
  method _ _ := trivial
  hear {m event} _ hm he := by
    obtain ⟨hvalues, hfaults⟩ := HostEvent.shows_and.1 he
    exact { hm.toHolds.hear hvalues with
      faults := List.forall_mem_cons.2 ⟨hfaults, hm.faults⟩
      host := hm.host }
  host {m} _ hm := hm.host m.heard fun event he =>
    HostEvent.shows_and.2 ⟨hm.heard event he, hm.faults event he⟩

/-! ## Machines of sessions -/

namespace Machine.Modest

/-- A host function that runs no program texts is registered. -/
theorem register {m : Machine} (hm : m.Modest) {f : HostFunction} (hf : f.operation ≠ .nested) :
    (m.register f).Modest := by
  have hset := hm.toHolds.set (F := globalFrame) (x := f.name)
    (v := .callable (.native ⟨m.nextIdentity, f.name, f.arity, f.operation⟩)) hf
  exact { hset with faults := hm.faults, host := hm.host }

theorem start {library : List HostFunction} {host : Host} {sink : Sink} {time : Nat}
    (hl : ∀ f ∈ library, f.operation ≠ .nested) (hh : host.Modest) :
    (Session.start library host sink time).Modest := by
  have idle : Host.Modest fun _ => .done (.ok .null) := fun _ _ => ⟨trivial, nofun⟩
  have registered (fs : List HostFunction) (hfs : ∀ f ∈ fs, f.operation ≠ .nested) (m : Machine)
      (hm : m.Modest) : (fs.foldl Machine.register m).Modest := by
    induction fs generalizing m with
    | nil => exact hm
    | cons f fs ih =>
      obtain ⟨hf, hfs⟩ := List.forall_mem_cons.1 hfs
      exact ih hfs _ (hm.register hf)
  have empty : Machine.Modest { sink := sink } := by
    refine ⟨⟨fun F x v hv => ?_, fun i x v hv => ?_, List.forall_mem_nil _⟩,
      List.forall_mem_nil _, idle⟩
    · cases F <;> simp [Frames.frame, Frames.root] at hv
    · simp at hv
  have hm := registered library hl _ empty
  exact { hm with
    faults := hm.faults
    host := hh }

end Machine.Modest

/-! ## Running -/

/-- **What is executed ends in no static error.** -/
theorem Eval.interpret_dynamic {k : Nat} {program : List Stmt} {m m' : Machine} (hm : m.Modest)
    {r : Except Error Unit} (h : Eval.interpret k program m = some (r, m')) :
    m'.Modest ∧ ∀ e, r = .error e → e.IsDynamic := by
  obtain ⟨-, hm', -, he⟩ :=
    (Eval.ruled Regime.stable_dynamic k).interpret (m := m) hm program r m' h
  exact ⟨hm', he⟩

/-- A run that ends in a static error has only used up sites. -/
theorem Eval.run_modest {k : Nat} {source : String} {m m' : Machine} (hm : m.Modest)
    {r : Except Error Unit} (h : Eval.run k source m = some (r, m')) :
    m'.Modest ∧ ∀ e, r = .error e → e.isStatic = true →
      ∃ site, m' = { m with nextSite := site } := by
  obtain ⟨hm', he⟩ := Eval.run_machine Regime.stable_dynamic hm h
  refine ⟨hm', fun e hr hstatic => (he e hr).resolve_left fun hdynamic => ?_⟩
  have hdynamic : e.isStatic = false := hdynamic
  rw [hdynamic] at hstatic
  cases hstatic

/-! ## Scripts -/

theorem scriptMachine_modest (time : Nat) : (scriptMachine time).Modest := by
  have idle : Host.Modest fun _ => .done (.ok .null) := fun _ _ => ⟨trivial, nofun⟩
  have others : ∀ f ∈ standardLibrary, f.operation ≠ .nested := by decide
  have modest : (Session.start standardLibrary (fun _ => .done (.ok .null)) {} time).Modest :=
    .start others idle
  exact modest

theorem Utf8.decodeLossy_extract_self (bytes : ByteArray) (n : Nat) :
    decodeLossy (bytes.extract n n) = "" := by
  unfold decodeLossy
  rw [show (bytes.extract n n).size = 0 by simp]
  rfl

theorem Error.exitCode_eq_static {e : Error} : e.exitCode = 65 ↔ e.isStatic = true := by
  unfold exitCode
  cases e.isStatic <;> simp

/-- A script that ends with exit code 65 has printed its error alone. -/
theorem runReport_rejected {m : Machine} (hm : m.Modest) {source : String}
    (h : (runReport m source).exit = 65) : ∃ e m', Session.run source m = some (.error e, m') ∧
      e.isStatic = true ∧ runReport m source = ⟨65, lines [e.message], ""⟩ := by
  have report : runReport m source = match Session.run source m with
      | none => ⟨70, "", ""⟩
      | some (.ok (), m') => ⟨0, showStep (.ok ())
          (m'.sink.accepted.extract m.sink.accepted.size m'.sink.accepted.size), ""⟩
      | some (.error e, m') => ⟨e.exitCode, showStep (.error e)
          (m'.sink.accepted.extract m.sink.accepted.size m'.sink.accepted.size), ""⟩ := by
    unfold runReport Session.perform
    rcases Session.run source m with _ | ⟨_ | _, m'⟩ <;> rfl
  rw [report] at h ⊢
  rcases hrun : Session.run source m with _ | ⟨e | _, m'⟩
  · rw [hrun] at h; cases h
  · rw [hrun] at h
    have hstatic := Error.exitCode_eq_static.1 h
    obtain ⟨-, htrace⟩ := Eval.run_modest hm hrun
    obtain ⟨site, rfl⟩ := htrace e rfl hstatic
    refine ⟨e, _, rfl, hstatic, ?_⟩
    dsimp only
    rw [Error.exitCode_eq_static.2 hstatic, showStep, Utf8.decodeLossy_extract_self]
    rfl
  · rw [hrun] at h; cases h

/-- The program text in a file is the text that its bytes write. -/
theorem sourceOf_eq_ok {path source : String} {contents : Except FileFault ByteArray} :
    sourceOf path contents = .ok source ↔
      ∃ bytes, contents = .ok bytes ∧ Utf8.decode bytes = .ok source := by
  unfold sourceOf
  cases contents with
  | error fault => simp
  | ok bytes => cases hd : Utf8.decode bytes <;> simp [hd]

/-- A directory after the log of an invocation has been opened. -/
def Directory.opened (d : Directory) (i : Invocation) : Except FileFault Directory :=
  if i.log then d.write logPath i.opening else .ok d

theorem Directory.report_eq (d : Directory) (m : Machine) (i : Invocation) :
    d.report m i = match d.opened i with
      | .ok d => d.taskReport m i.task
      | .error fault => (logFailure fault).report "" := by
  unfold report opened
  cases i.log <;> rfl

namespace Session

/-- **Static errors leave no trace.**  On a machine whose host functions run no program texts and
    end in no static errors themselves, as those of sessions with such functions are from the
    start and stay:

    * a run that ends in a static error has changed nothing but the number of the next site;
    * what is executed never ends in a static error;
    * a script that ends with exit code 65 prints the message of its error and nothing else. -/
theorem rejection_traceless :
    (∀ (library : List HostFunction) (host : Host) (sink : Sink) (time : Nat),
      (∀ f ∈ library, f.operation ≠ .nested) → host.Modest →
        (start library host sink time).Modest) ∧
    (∀ (m m' : Machine), m.Modest → ∀ (k : Nat) (source : String) (r : Except Error Unit),
      Eval.run k source m = some (r, m') → m'.Modest ∧
        ∀ e, r = .error e → e.isStatic = true → ∃ site, m' = { m with nextSite := site }) ∧
    (∀ (m m' : Machine), m.Modest → ∀ (k : Nat) (program : List Stmt) (r : Except Error Unit),
      Eval.interpret k program m = some (r, m') → ∀ e, r = .error e → e.isStatic = false) ∧
    ∀ (d : Directory) (time : Nat) (i : Invocation) (path : String),
      i.task = .script path ∨ i.task = .file .run path →
      (d.report (scriptMachine time) i).exit = 65 →
      ∃ d' bytes source e m', d.opened i = .ok d' ∧ d'.read path = .ok bytes ∧
        Utf8.decode bytes = .ok source ∧ run source (scriptMachine time) = some (.error e, m') ∧
        e.isStatic = true ∧ d.report (scriptMachine time) i = ⟨65, lines [e.message], ""⟩ := by
  refine ⟨fun _ _ _ _ hl hh => .start hl hh, fun m m' hm k source r h => Eval.run_modest hm h,
    fun m m' hm k program r h => (Eval.interpret_dynamic hm h).2, ?_⟩
  intro d time i path htask h
  rw [Directory.report_eq] at h ⊢
  cases hopened : d.opened i with
  | error fault => rw [hopened] at h; cases h
  | ok d' =>
    have script : d'.taskReport (scriptMachine time) i.task =
        Command.run.report (scriptMachine time) path (d'.read path) := by
      rcases htask with ht | ht <;> rw [ht] <;> rfl
    simp only [hopened, script] at h ⊢
    unfold Command.report at h ⊢
    cases hs : sourceOf path (d'.read path) with
    | error failure => rw [hs] at h; cases h
    | ok source =>
      rw [hs] at h
      obtain ⟨bytes, hread, hdecode⟩ := sourceOf_eq_ok.1 hs
      obtain ⟨e, m', hrun, hstatic, hreport⟩ := runReport_rejected (scriptMachine_modest time) h
      exact ⟨d', bytes, source, e, m', rfl, hread, hdecode, hrun, hstatic, hreport⟩

/-- The run has ended in a static error. -/
def isRejected : Option (Except Error Unit × Machine) → Bool
  | some (.error e, _) => e.isStatic
  | _ => false

theorem exists_of_isRejected {x : Option (Except Error Unit × Machine)}
    (h : isRejected x = true) : ∃ e m, x = some (.error e, m) ∧ e.isStatic = true := by
  unfold isRejected at h
  split at h
  · exact ⟨_, _, rfl, h⟩
  · cases h

/-- A directory with a script that is not accepted. -/
def rejecting : Directory := ⟨[("a", "print 1; break;".toUTF8)], .empty⟩

theorem rejection_traceless_break :
    (∃ e m' site, Eval.run 3 "print 1; break;" (start [⟨"apply", 2, .apply⟩] relay {} 0) =
        some (.error e, m') ∧ e.isStatic = true ∧
        m' = { start [⟨"apply", 2, .apply⟩] relay {} 0 with nextSite := site }) ∧
    (∃ e m', Eval.interpret 2 [.break 1] (start [⟨"apply", 2, .apply⟩] relay {} 0) =
        some (.error e, m') ∧ e.isStatic = false) ∧
    ∃ e : Error, (rejecting.report (scriptMachine 0) ⟨.script "a", false⟩).exit = 65 ∧
      e.isStatic = true ∧
      rejecting.report (scriptMachine 0) ⟨.script "a", false⟩ = ⟨65, lines [e.message], ""⟩ := by
  have others : ∀ f ∈ ([⟨"apply", 2, .apply⟩] : List HostFunction), f.operation ≠ .nested := by
    decide
  have rejected : isRejected (Eval.run 3 "print 1; break;"
      (start [⟨"apply", 2, .apply⟩] relay {} 0)) = true := by decide +kernel
  have hread : rejecting.read "a" = .ok "print 1; break;".toUTF8 := by cbv
  have exits : (rejecting.report (scriptMachine 0) ⟨.script "a", false⟩).exit = 65 := by
    have script : rejecting.report (scriptMachine 0) ⟨.script "a", false⟩ =
        Command.run.report (scriptMachine 0) "a" (rejecting.read "a") := rfl
    rw [script, hread]
    decide +kernel
  have modest := rejection_traceless.1 _ relay {} 0 others relay_modest
  obtain ⟨e, m', hrun, hstatic⟩ := exists_of_isRejected rejected
  obtain ⟨-, htrace⟩ := rejection_traceless.2.1 _ m' modest 3 _ _ hrun
  obtain ⟨_, _, _, e', _, -, -, -, -, hstatic', hreport⟩ :=
    rejection_traceless.2.2.2 rejecting 0 ⟨.script "a", false⟩ "a" (Or.inl rfl) exits
  obtain ⟨site, hsame⟩ := htrace e rfl hstatic
  exact ⟨⟨e, m', site, hrun, hstatic, hsame⟩,
    ⟨_, _, rfl, rejection_traceless.2.2.1 _ _ modest 2 [.break 1] _ rfl _ rfl⟩,
    e', exits, hstatic', hreport⟩

end Session

end Scriptling
