/-
  Control — no `break`, `continue` or `return` gets lost.

  * `Session.control_stays`: the programs with a statement that asks for a loop or a function
    that is not there are refused, because of the first such statement if because of any; and
    where all programs are resolved, nothing that runs, called by the host or by a program,
    ends in such a statement.
-/
import Scriptling.Proofs.Scopes

namespace Scriptling

open World Eval

namespace Session

/-- **No `break`, `continue` or `return` gets lost.** -/
theorem control_stays :
    (∀ (globals : List String) (program : List Stmt),
      (strays program ≠ [] → ∃ e, resolve globals program = .error e) ∧
      ∀ line fault, resolve globals program = .error (.scoping line fault) → fault.IsStray →
        (strays program).head? = some (line, fault)) ∧
    ∀ {library : List HostFunction} {host : Host} {sink : Sink} {time : Nat} {ps : List Pass}
      {m : Machine}, host.Honest → Reached Step.Resolves (start library host sink time) ps m →
      ∀ {s : Step}, s.Resolves →
        (∀ {es : List Error} {m₁ : Machine}, s.outcome m = some (es, m₁) →
          ∀ e ∈ es, ¬ e.IsStray) ∧
        ∀ {k : Nat} {c c' : Point}, s.Enters k m c → Reaches c c' →
          ∀ e, c'.fault? = some e → ¬ e.IsStray := by
  constructor
  · intro globals program
    have reports := resolve_reports globals program
    constructor
    · intro hs
      cases hr : resolve globals program with
      | error e => exact ⟨e, rfl⟩
      | ok ds =>
        rw [hr] at reports
        exact absurd reports hs
    · intro line fault hr hf
      rw [hr] at reports
      obtain ⟨_, _, he, hhead⟩ := reports
      cases he
      exact hhead hf
  · intro library host sink time ps m hh hm s hs
    have hrests : Rests ⟨True, False⟩ ps m :=
      hm.rests (fun _ hs => Or.inl hs) (.start library sink time (Or.inr trivial) fun _ => hh)
    refine ⟨fun ho e he => ((hrests.step (Or.inl hs) ho).2 e he).notStray not_false, ?_⟩
    intro k c c' he hc e hf
    obtain ⟨W, pending, hma, hsuits⟩ := hrests.enters trivial (Or.inl hs) he
    obtain ⟨others, ⟨V, -, hma', hs'⟩, -⟩ := hma.reaches hsuits hc
    exact (hs'.permits hma' hf).notStray not_false

theorem control_stays_relay :
    (∃ e, resolve [] [.while (.literal .null)
      (.expression (.function (.mk none [] [.break 2] 1)))] = .error e) ∧
    relay.Honest ∧ ∀ es m₁,
      (Step.run "while (true) \x7b relay(fn() \x7b return 1; \x7d); break; \x7d").outcome
        (start [⟨"relay", 1, .custom 0⟩] relay {} 0) = some (es, m₁) → ∀ e ∈ es, ¬ e.IsStray :=
  ⟨(control_stays.1 _ _).1 nofun, relay_honest, fun _ _ ho =>
    (control_stays.2 relay_honest .start (s := .run _) trivial).1 ho⟩

end Session

end Scriptling
