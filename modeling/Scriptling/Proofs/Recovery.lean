/-
  Recovery — what parsing reads when it stops at the first error, and when it goes on.

  * `Agree`: what is read up to the first error is read again, in outline, by going on after it;
  * `recoverUpTo_agrees`: it is, from the same tokens, whatever sites come next;
  * `parseReport_agrees`, `Session.run_textual`: so listing the statements of a file finds an
    error exactly when the file cannot be run for one;
  * `parse_agrees`: the three ways to parse, and the two commands, agree.
-/
import Scriptling.Proofs.Piecewise
import Scriptling.Proofs.Rejection
import Scriptling.Proofs.Renumbering
import Scriptling.Proofs.Scanning
import Scriptling.Proofs.Strays

namespace Scriptling

/-! ## Up to the first error and beyond -/

/-- Statements and at most one error agree with statements and all errors: the error is the first
    of all, and the statements are in outline the first of all; they are all if there is no
    error. -/
structure Agree (s : List Stmt × Option Error) (t : List Stmt × List Error) : Prop where
  error : t.2.head? = s.2
  statements : Stmt.outlineAll s.1 <+: Stmt.outlineAll t.1
  complete : s.2 = none → Stmt.outlineAll t.1 = Stmt.outlineAll s.1
  grammatical : ∀ e ∈ t.2, e.IsGrammatical

theorem Agree.nil : Agree ([], none) ([], []) :=
  ⟨rfl, List.prefix_rfl, fun _ => rfl, List.forall_mem_nil _⟩

/-- **Going on after errors reads again what is read without**, from the same tokens. -/
theorem recoverUpTo_agrees (depth : Nat) : ∀ (count : Nat) (c d : Cursor), c.rest = d.rest →
    Agree (parseUpTo depth count c).1 (recoverUpTo depth count d).1 := by
  intro count
  induction count with
  | zero => exact fun _ _ _ => .nil
  | succ count ih =>
    rintro ⟨ts, site⟩ ⟨_, site'⟩ rfl
    unfold parseUpTo recoverUpTo
    split
    · exact .nil
    have hfirst := (Parser.renumbering depth).declaration ts site site'
    revert hfirst
    cases Parser.declaration depth ⟨ts, site⟩ <;> cases Parser.declaration depth ⟨ts, site'⟩ <;>
      intro hfirst
    case ok.ok s c s' c' =>
      obtain ⟨hs, hrest⟩ := hfirst
      have h := ih c c' hrest
      dsimp only
      generalize parseUpTo depth count c = up at h
      generalize recoverUpTo depth count c' = on at h
      exact {
        error := h.error
        statements := by simpa [hs] using h.statements
        complete := fun he => by simpa [hs] using h.complete he
        grammatical := h.grammatical }
    case error.error e c e' c' =>
      obtain ⟨rfl, he, -⟩ := hfirst
      -- whatever is read after the error, its errors are faults of the grammar
      have h := ih { c' with rest := synchronize c'.rest } { c' with rest := synchronize c'.rest } rfl
      dsimp only
      generalize recoverUpTo depth count { c' with rest := synchronize c'.rest } = on at h
      exact {
        error := rfl
        statements := List.nil_prefix
        complete := fun he => by cases he
        grammatical := List.forall_mem_cons.2 ⟨he, h.grammatical⟩ }
    all_goals exact hfirst.elim

/-- **So a program that is parsed on after errors agrees** with one that is not. -/
theorem parsePartial_agrees (site : Nat) (ts : List Token) :
    Agree (parsePartial site ts).1 (parseRecovering ts) := recoverUpTo_agrees _ _ _ _ rfl

theorem parse_eq (site : Nat) (ts : List Token) :
    (parse site ts).1 = match (parsePartial site ts).1.2 with
      | none => .ok (parsePartial site ts).1.1
      | some e => .error e := by
  unfold parse
  rcases parsePartial site ts with ⟨⟨ss, _ | e⟩, site'⟩ <;> rfl

/-! ## Errors in the text -/

/-- The error is that a text is no program. -/
def Error.IsTextual (e : Error) : Prop := (∃ line fault, e = .lexical line fault) ∨ e.IsGrammatical

theorem Error.IsTextual.isStatic {e : Error} (h : e.IsTextual) : e.isStatic = true := by
  obtain ⟨_, _, rfl⟩ | ⟨_, _, _, rfl⟩ := h <;> rfl

theorem isLexical_tokens {source : String} {e : Error} (h : tokens source = .error e) :
    ∃ line fault, e = .lexical line fault := by
  have hscan : (scan source).error = some e := by
    unfold tokens at h
    dsimp only at h
    split at h <;> cases h
    assumption
  obtain ⟨front, -, ⟨_, hends⟩ | ⟨line, fault, hends⟩⟩ := (scan_scanned source).ends
  · rw [hends] at hscan
    cases hscan
  · rw [hends] at hscan
    cases hscan
    exact ⟨line, fault, rfl⟩

/-- **Listing the statements of a text** finds an error exactly if the text cannot be parsed; the
    error is the first that it lists. -/
theorem parseReport_agrees (source : String) (m : Machine) :
    match Eval.parseText source m with
    | some (.ok _, _) => (parseReport source).exit = 0
    | some (.error e, _) => e.IsTextual ∧ ∃ (program : List Stmt) (others : List Error),
        parseReport source =
          ⟨65, lines (program.map Stmt.listing ++ (e :: others).map Error.message), ""⟩
    | none => False := by
  rw [Eval.parseText_apply]
  unfold parseReport
  cases hts : tokens source with
  | error e =>
    obtain ⟨line, fault, rfl⟩ := isLexical_tokens hts
    exact ⟨.inl ⟨line, fault, rfl⟩, [], [], rfl⟩
  | ok ts =>
    have hagree := parsePartial_agrees m.nextSite ts
    have hparse := parse_eq m.nextSite ts
    dsimp only
    generalize parseRecovering ts = all at hagree ⊢
    obtain ⟨program, errors⟩ := all
    cases he : (parsePartial m.nextSite ts).1.2 with
    | none =>
      rw [he] at hparse
      have hnone : errors = [] := List.head?_eq_none_iff.1 (hagree.error.trans he)
      rw [hparse, hnone]
      rfl
    | some e =>
      rw [he] at hparse
      obtain ⟨others, rfl⟩ : ∃ others, errors = e :: others :=
        List.head?_eq_some_iff.1 (hagree.error.trans he)
      rw [hparse]
      exact ⟨.inr (hagree.grammatical e List.mem_cons_self), program, others, rfl⟩

/-- **Running a text ends in an error of the text** exactly if it cannot be parsed. -/
theorem Session.run_textual {m : Machine} (hm : m.Modest) {source : String} {e : Error} :
    ((∃ m', run source m = some (.error e, m')) ∧ e.IsTextual) ↔
      ∃ m', Eval.parseText source m = some (.error e, m') := by
  have hrun : run source m = (Eval.parseText source >>= Eval.submit (ample - 1)) m :=
    congrFun (Eval.run_eq_submit (ample - 1) source) m
  have hreport := parseReport_agrees source m
  rw [hrun, Eval.bind_apply]
  rcases hparse : Eval.parseText source m with _ | ⟨e' | program, m₁⟩
  · rw [hparse] at hreport
    exact hreport.elim
  · rw [hparse] at hreport
    dsimp only
    constructor
    · rintro ⟨⟨m', h⟩, -⟩
      cases h
      exact ⟨_, rfl⟩
    · rintro ⟨m', h⟩
      cases h
      exact ⟨⟨_, rfl⟩, hreport.1⟩
  · constructor
    · rintro ⟨⟨m', hsubmit⟩, htext⟩
      obtain ⟨site, -, rfl, -⟩ := Eval.parseText_eq hparse
      dsimp only at hsubmit
      rw [Eval.submit_apply] at hsubmit
      have hreports := resolve_reports ({ m with nextSite := site } : Machine).globalNames program
      split at hsubmit
      · next ds _ =>
        -- what comes up while the program runs is not static
        have hmodest : (({ m with nextSite := site } : Machine).redirect
            (m.distances.recordAll ds)).Modest :=
          { hm with faults := hm.faults, host := hm.host }
        have hdynamic : e.isStatic = false := (Eval.interpret_dynamic hmodest hsubmit).2 e rfl
        rw [htext.isStatic] at hdynamic
        cases hdynamic
      · next e' hresolve =>
        cases hsubmit
        rw [hresolve] at hreports
        obtain ⟨_, _, rfl, -⟩ := hreports
        obtain ⟨_, _, h⟩ | ⟨_, _, _, h⟩ := htext <;> cases h
    · rintro ⟨_, h⟩
      cases h

/-! ## The ways to parse -/

theorem Command.report_of_decode {bytes : ByteArray} {source : String}
    (h : Utf8.decode bytes = .ok source) (m : Machine) (path : String) :
    Command.run.report m path (.ok bytes) = runReport m source ∧
      Command.parse.report m path (.ok bytes) = parseReport source := by
  have hsource : sourceOf path (.ok bytes) = .ok source := sourceOf_eq_ok.2 ⟨bytes, rfl, h⟩
  unfold Command.report
  rw [hsource]
  exact ⟨rfl, rfl⟩

/-- **The ways to parse agree.**  Whatever tokens there are, and whatever sites are given out:

    * parsing on after errors finds no error exactly if parsing succeeds, and then the statements
      are the same in outline;
    * otherwise the first of its errors is the one that parsing ends in, with or without the
      statements before it, and these statements are in outline the first of its own.

    So a file is listed with exit code 65 exactly if a script in it ends in an error of its text;
    the script prints that error alone, and it is the first error in the list. -/
theorem parse_agrees :
    (∀ (site site' : Nat) (ts : List Token),
      ((parseRecovering ts).2 = [] ↔ ∃ ss, (parse site ts).1 = .ok ss) ∧
      (∀ ss, (parse site ts).1 = .ok ss →
        Stmt.outlineAll (parseRecovering ts).1 = Stmt.outlineAll ss) ∧
      ∀ e, (parse site ts).1 = .error e →
        (parseRecovering ts).2.head? = some e ∧ (parsePartial site' ts).1.2 = some e ∧
          Stmt.outlineAll (parsePartial site' ts).1.1 <+: Stmt.outlineAll (parseRecovering ts).1) ∧
    ∀ (time : Nat) (path source : String) (bytes : ByteArray), Utf8.decode bytes = .ok source →
      ((Command.parse.report (scriptMachine time) path (.ok bytes)).exit = 65 ↔
        ∃ e m', Session.run source (scriptMachine time) = some (.error e, m') ∧ e.IsTextual) ∧
      ∀ e m', Session.run source (scriptMachine time) = some (.error e, m') → e.IsTextual →
        Command.run.report (scriptMachine time) path (.ok bytes) = ⟨65, lines [e.message], ""⟩ ∧
        ∃ (program : List Stmt) (others : List Error),
          Command.parse.report (scriptMachine time) path (.ok bytes) =
            ⟨65, lines (program.map Stmt.listing ++ (e :: others).map Error.message), ""⟩ := by
  constructor
  · intro site site' ts
    have hagree := parsePartial_agrees site ts
    have hagree' := parsePartial_agrees site' ts
    rw [parse_eq]
    cases he : (parsePartial site ts).1.2 with
    | none =>
      have hnone : (parseRecovering ts).2 = [] := List.head?_eq_none_iff.1 (hagree.error.trans he)
      refine ⟨⟨fun _ => ⟨_, rfl⟩, fun _ => hnone⟩, ?_, nofun⟩
      rintro ss hss
      cases hss
      exact hagree.complete he
    | some e =>
      have hsome := hagree.error.trans he
      refine ⟨⟨fun h => ?_, nofun⟩, nofun, ?_⟩
      · rw [h] at hsome
        cases hsome
      · rintro _ he'
        cases he'
        exact ⟨hsome, hagree'.error.symm.trans hsome, hagree'.statements⟩
  · intro time path source bytes hdecode
    obtain ⟨hran, hparsed⟩ := Command.report_of_decode hdecode (scriptMachine time) path
    have hmodest := scriptMachine_modest time
    have hreport := parseReport_agrees source (scriptMachine time)
    rw [hran, hparsed]
    refine ⟨⟨fun hexit => ?_, ?_⟩, fun e m' hrun htext => ?_⟩
    · rcases hparse : Eval.parseText source (scriptMachine time) with _ | ⟨e | program, m₁⟩
      · rw [hparse] at hreport
        exact hreport.elim
      · obtain ⟨⟨m', hrun⟩, htext⟩ := (Session.run_textual hmodest).2 ⟨m₁, hparse⟩
        exact ⟨e, m', hrun, htext⟩
      · rw [hparse] at hreport
        dsimp only at hreport
        omega
    · rintro ⟨e, m', hrun, htext⟩
      obtain ⟨m₁, hparse⟩ := (Session.run_textual hmodest).1 ⟨⟨m', hrun⟩, htext⟩
      rw [hparse] at hreport
      obtain ⟨-, program, others, hlist⟩ := hreport
      rw [hlist]
    · obtain ⟨m₁, hparse⟩ := (Session.run_textual hmodest).1 ⟨⟨m', hrun⟩, htext⟩
      rw [hparse] at hreport
      refine ⟨?_, hreport.2⟩
      have hexit : (runReport (scriptMachine time) source).exit = 65 := by
        unfold runReport Session.perform
        rw [hrun]
        exact Error.exitCode_eq_static.2 htext.isStatic
      obtain ⟨e', _, hrun', -, halone⟩ := runReport_rejected hmodest hexit
      rw [hrun] at hrun'
      cases hrun'
      exact halone

/-- A script with an error in its second statement, and one more statement after it. -/
def unreadable : String := "a; let; b;"

theorem parse_agrees_unreadable :
    (∃ ss, (parse 0 (scan "a;").tokens).1 = .ok ss ∧
      Stmt.outlineAll (parseRecovering (scan "a;").tokens).1 = Stmt.outlineAll ss) ∧
    (∃ e, (parse 0 (scan unreadable).tokens).1 = .error e ∧
      (parseRecovering (scan unreadable).tokens).2.head? = some e ∧
      (parsePartial 2 (scan unreadable).tokens).1.2 = some e) ∧
    Utf8.decode unreadable.toUTF8 = .ok unreadable ∧
    ∃ e m', Session.run unreadable (scriptMachine 0) = some (.error e, m') ∧ e.IsTextual ∧
      Command.run.report (scriptMachine 0) "a" (.ok unreadable.toUTF8) =
        ⟨65, lines [e.message], ""⟩ := by
  have hnone : (parseRecovering (scan "a;").tokens).2 = [] := by decide +kernel
  have hsome : (parseRecovering (scan unreadable).tokens).2 ≠ [] := by decide +kernel
  have hdecode : Utf8.decode unreadable.toUTF8 = .ok unreadable := by decide +kernel
  have hexit : (Command.parse.report (scriptMachine 0) "a" (.ok unreadable.toUTF8)).exit = 65 := by
    decide +kernel
  obtain ⟨hiff, hok, -⟩ := parse_agrees.1 0 0 (scan "a;").tokens
  obtain ⟨ss, hss⟩ := hiff.1 hnone
  refine ⟨⟨ss, hss, hok ss hss⟩, ?_, hdecode, ?_⟩
  · obtain ⟨hiff, -, herror⟩ := parse_agrees.1 0 2 (scan unreadable).tokens
    cases he : (parse 0 (scan unreadable).tokens).1 with
    | ok ss => exact absurd (hiff.2 ⟨ss, he⟩) hsome
    | error e => exact ⟨e, rfl, (herror e he).1, (herror e he).2.1⟩
  · obtain ⟨hiff, hreports⟩ := parse_agrees.2 0 "a" unreadable unreadable.toUTF8 hdecode
    obtain ⟨e, m', hrun, htext⟩ := hiff.1 hexit
    exact ⟨e, m', hrun, htext, (hreports e m' hrun htext).1⟩

end Scriptling
