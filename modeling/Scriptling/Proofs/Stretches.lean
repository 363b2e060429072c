/-
  Stretches — how parsing goes on after errors.

  The tokens before the end of the file fall into stretches.  Each was read as a declaration, or it
  was lost: taken by a declaration that failed, or skipped after it.

  * `Stretch`, `Stretches`: a stretch, and the runs that go from stretch to stretch;
  * `synchronize_resumes`: where skipping comes to rest;
  * `Stretches.exists`, `Stretches.recoverUpTo_eq`: every run comes to the end, with what its
    stretches give;
  * `Stretches.further`: neither a greater depth nor tokens behind the end of the file matter;
  * `Stretches.sound`: no stretch is empty, each one read is derived, and after each one lost
    the next declaration is likely to start;
  * `recovery_progresses`: so parsing goes on to the end, stretch by stretch.
-/
import Scriptling.Proofs.Horizon

namespace Scriptling

/-! ## Skipping -/

/-- **Where reading is taken up again** after some tokens were skipped: at the end, behind a
    semicolon, or at a token that starts a statement. -/
def Resumes (skipped rest : List Token) : Prop :=
  atEnd rest = true ∨ (∃ t ∈ skipped.getLast?, t.kind = .semicolon) ∨
    startsStatement (frontToken rest).kind = true

theorem skipStatement_resumes {ts : List Token} (previous : Token) (h : Ended ts) :
    ∃ skipped, ts = skipped ++ skipStatement previous ts ∧ Ended (skipStatement previous ts) ∧
      Resumes (previous :: skipped) (skipStatement previous ts) := by
  induction ts generalizing previous with
  | nil => exact absurd rfl h.ne_nil
  | cons t ts ih =>
    unfold skipStatement
    split
    · next hstop =>
      refine ⟨[], rfl, h, ?_⟩
      simp only [Bool.or_eq_true, decide_eq_true_eq] at hstop
      rcases hstop with (hend | hsemicolon) | hstart
      · exact .inl (beq_iff_eq.2 hend)
      · exact .inr (.inl ⟨previous, rfl, hsemicolon⟩)
      · exact .inr (.inr hstart)
    · next hgo =>
      simp only [Bool.or_eq_true, decide_eq_true_eq, not_or] at hgo
      obtain ⟨skipped, hts, hended, hresumes⟩ := ih t (h.tail hgo.1.1)
      refine ⟨t :: skipped, congrArg (t :: ·) hts, hended, ?_⟩
      rwa [Resumes, List.getLast?_cons_cons]

/-- **Skipping comes to rest** before the end of the file, and past the token at which it began. -/
theorem synchronize_resumes {ts : List Token} (h : Ended ts) :
    ∃ skipped, ts = skipped ++ synchronize ts ∧ Ended (synchronize ts) ∧
      Resumes skipped (synchronize ts) ∧ (skipped = [] → atEnd ts = true) := by
  cases ts with
  | nil => exact absurd rfl h.ne_nil
  | cons t ts =>
    rw [synchronize]
    split
    · next hend => exact ⟨[], rfl, h, .inl (beq_iff_eq.2 hend), fun _ => beq_iff_eq.2 hend⟩
    · next hne =>
      obtain ⟨skipped, hts, hended, hresumes⟩ := skipStatement_resumes t (h.tail hne)
      exact ⟨t :: skipped, congrArg (t :: ·) hts, hended, hresumes, nofun⟩

theorem skipStatement_append {ts : List Token} (previous : Token) (h : Ended ts)
    (more : List Token) :
    skipStatement previous (ts ++ more) = skipStatement previous ts ++ more := by
  induction ts generalizing previous with
  | nil => exact absurd rfl h.ne_nil
  | cons t ts ih =>
    rw [List.cons_append, skipStatement, skipStatement]
    split
    · rfl
    · next hgo =>
      simp only [Bool.or_eq_true, decide_eq_true_eq, not_or] at hgo
      exact ih t (h.tail hgo.1.1)

theorem synchronize_append {ts : List Token} (h : Ended ts) (more : List Token) :
    synchronize (ts ++ more) = synchronize ts ++ more := by
  cases ts with
  | nil => exact absurd rfl h.ne_nil
  | cons t ts =>
    rw [List.cons_append, synchronize, synchronize]
    split
    · rfl
    · next hne => exact skipStatement_append t (h.tail hne) more

/-! ## Stretches of tokens -/

/-- A stretch of the tokens of a program. -/
inductive Stretch where
  /-- Read as a statement. -/
  | read (s : Stmt) (taken : List Token)
  /-- Lost to an error: the tokens up to the error, and those skipped after it. -/
  | lost (e : Error) (taken skipped : List Token)

namespace Stretch

def tokens : Stretch → List Token
  | read _ taken => taken
  | lost _ taken skipped => taken ++ skipped

def statement? : Stretch → Option Stmt
  | read s _ => some s
  | lost .. => none

def error? : Stretch → Option Error
  | read .. => none
  | lost e _ _ => some e

/-- What holds of a stretch in front of the rest of the tokens: it is not empty, and the tokens that
    were read are derived, or those after the lost ones are a place to go on. -/
def Sound : Stretch → List Token → Prop
  | read s taken, _ => taken ≠ [] ∧ ∀ strict, ∃ bare, Derives strict (.declaration bare s) taken
  | lost _ taken skipped, rest => taken ++ skipped ≠ [] ∧ Resumes skipped rest

theorem Sound.ne_nil {stretch : Stretch} {rest : List Token} (h : stretch.Sound rest) :
    stretch.tokens ≠ [] := by
  cases stretch with
  | read => exact h.1
  | lost => exact h.1

/-- **One stretch of a run**: a declaration that is read, or one that fails and what is then
    skipped. -/
inductive Step (depth : Nat) : Cursor → Stretch → Cursor → Prop
  | read {c c' s taken} : Parser.declaration depth c = .ok s c' → c.rest = taken ++ c'.rest →
      Step depth c (.read s taken) c'
  | lost {c c' e taken skipped} : Parser.declaration depth c = .error e c' →
      c.rest = taken ++ c'.rest → c'.rest = skipped ++ synchronize c'.rest →
      Step depth c (.lost e taken skipped) { c' with rest := synchronize c'.rest }

/-- What a declaration leaves before the end of the file, whether it is read or not. -/
theorem declaration_leaves {depth : Nat} {c : Cursor} (h : Ended c.rest)
    (hdepth : 32 * c.rest.length + 18 ≤ depth) :
    match Parser.declaration depth c with
    | .ok _ c' | .error _ c' => Ended c'.rest ∧ c'.rest <:+ c.rest := by
  have hwithin := (Parser.horizon (Nat.le_refl depth)).declaration c.rest hdepth h [] c.nextSite
  revert hwithin
  cases Parser.declaration depth c <;>
    cases Parser.declaration depth ⟨c.rest ++ [], c.nextSite⟩ <;> intro hwithin
  · exact ⟨hwithin.2.ended, hwithin.2.suffix⟩
  · exact hwithin.elim
  · exact hwithin.elim
  · exact ⟨hwithin.2.ended, hwithin.2.suffix⟩

namespace Step

variable {depth : Nat} {c c' : Cursor} {stretch : Stretch}

theorem «exists» (h : Ended c.rest) (hdepth : 32 * c.rest.length + 18 ≤ depth) :
    ∃ stretch c', Step depth c stretch c' := by
  have hleaves := declaration_leaves h hdepth
  cases hrun : Parser.declaration depth c with
  | ok s c' =>
    rw [hrun] at hleaves
    obtain ⟨-, taken, htaken⟩ := hleaves
    exact ⟨_, _, .read hrun htaken.symm⟩
  | error e c' =>
    rw [hrun] at hleaves
    obtain ⟨hended, taken, htaken⟩ := hleaves
    obtain ⟨skipped, hskipped, -⟩ := synchronize_resumes hended
    exact ⟨_, _, .lost hrun htaken.symm hskipped⟩

/-- **A stretch is sound**, if there are tokens left before the end of the file. -/
theorem sound (hstep : Step depth c stretch c') (h : Ended c.rest)
    (hdepth : 32 * c.rest.length + 18 ≤ depth) (hend : atEnd c.rest = false) :
    c.rest = stretch.tokens ++ c'.rest ∧ Ended c'.rest ∧ stretch.Sound c'.rest := by
  have hleaves := declaration_leaves h hdepth
  cases hstep with
  | @read c' s taken hrun htaken =>
    rw [hrun] at hleaves
    have hderives (strict : Bool) : ∃ bare, Derives strict (.declaration bare s) taken := by
      obtain ⟨us, hus, bare, hderives, -⟩ :=
        (Parser.descent strict depth).declaration c.rest c.nextSite s c' hrun
      obtain rfl : us = taken := List.append_cancel_right (hus.symm.trans htaken)
      exact ⟨bare, hderives⟩
    obtain ⟨bare, hd⟩ := hderives true
    exact ⟨htaken, hleaves.1, hd.starts.ne_nil, hderives⟩
  | @lost c₁ e taken skipped hrun htaken hskipped =>
    rw [hrun] at hleaves
    obtain ⟨skipped', hskipped', hended, hresumes, hnone⟩ := synchronize_resumes hleaves.1
    obtain rfl : skipped' = skipped := List.append_cancel_right (hskipped'.symm.trans hskipped)
    refine ⟨?_, hended, fun hnil => ?_, hresumes⟩
    · rw [Stretch.tokens, List.append_assoc, ← hskipped, htaken]
    · -- an error at the end of the file comes after a token that was taken
      obtain ⟨rfl, rfl⟩ := List.append_eq_nil_iff.1 hnil
      rw [htaken, List.nil_append, hnone rfl] at hend
      cases hend

/-- **Neither a greater depth nor tokens behind the end of the file** change a stretch. -/
theorem further {depth' : Nat} (hstep : Step depth c stretch c') (h : Ended c.rest)
    (hdepth : 32 * c.rest.length + 18 ≤ depth) (hle : depth ≤ depth') (more : List Token) :
    Step depth' ⟨c.rest ++ more, c.nextSite⟩ stretch ⟨c'.rest ++ more, c'.nextSite⟩ := by
  have hwithin := (Parser.horizon hle).declaration c.rest hdepth h more c.nextSite
  cases hstep with
  | @read c' s taken hrun htaken =>
    rw [hrun] at hwithin
    cases hrun' : Parser.declaration depth' ⟨c.rest ++ more, c.nextSite⟩ with
    | ok s' d =>
      rw [hrun'] at hwithin
      obtain ⟨rfl, -, -, rfl⟩ := hwithin
      exact .read hrun' (by rw [htaken, List.append_assoc])
    | error =>
      rw [hrun'] at hwithin
      exact hwithin.elim
  | @lost c₁ e taken skipped hrun htaken hskipped =>
    rw [hrun] at hwithin
    cases hrun' : Parser.declaration depth' ⟨c.rest ++ more, c.nextSite⟩ with
    | ok =>
      rw [hrun'] at hwithin
      exact hwithin.elim
    | error e' d =>
      rw [hrun'] at hwithin
      obtain ⟨rfl, hended, -, rfl⟩ := hwithin
      have hskips : Step depth' _ (.lost e taken skipped) _ :=
        .lost hrun' (by rw [htaken, List.append_assoc])
          (by rw [synchronize_append hended, ← List.append_assoc, ← hskipped])
      rwa [synchronize_append hended] at hskips

end Step

end Stretch

/-! ## Runs -/

/-- **A run goes from stretch to stretch**, as long as it is not at the end. -/
inductive Stretches (depth : Nat) : Cursor → List Stretch → Cursor → Prop
  | done {c} : atEnd c.rest = true → Stretches depth c [] c
  | step {c c₁ c₂ stretch stretches} : atEnd c.rest = false → Stretch.Step depth c stretch c₁ →
      Stretches depth c₁ stretches c₂ → Stretches depth c (stretch :: stretches) c₂

namespace Stretches

variable {depth : Nat} {c c' : Cursor} {stretches : List Stretch}

/-- **Every run comes to the end.** -/
theorem «exists» : ∀ {c : Cursor}, Ended c.rest → 32 * c.rest.length + 18 ≤ depth →
    ∃ stretches c', Stretches depth c stretches c' := by
  intro c
  induction hn : c.rest.length using Nat.strongRecOn generalizing c with
  | ind n ih =>
  subst hn
  intro h hdepth
  cases hend : atEnd c.rest with
  | true => exact ⟨[], c, .done hend⟩
  | false =>
    obtain ⟨stretch, c₁, hstep⟩ := Stretch.Step.exists h hdepth
    obtain ⟨hrest, hended, hsound⟩ := hstep.sound h hdepth hend
    have hpos := List.length_pos_iff.2 hsound.ne_nil
    have hlen := congrArg List.length hrest
    rw [List.length_append] at hlen
    obtain ⟨stretches, c', hstretches⟩ := ih _ (by omega) rfl hended (by omega)
    exact ⟨_, c', .step hend hstep hstretches⟩

/-- What is returned is what the stretches give. -/
theorem recoverUpTo_eq (h : Stretches depth c stretches c') :
    ∀ {count : Nat}, stretches.length ≤ count → recoverUpTo depth count c =
      ((stretches.filterMap Stretch.statement?, stretches.filterMap Stretch.error?), c') := by
  induction h with
  | done hend =>
    intro count _
    cases count with
    | zero => rfl
    | succ count => rw [recoverUpTo, if_pos hend]; rfl
  | step hend hstep _ ih =>
    intro count hcount
    cases count with
    | zero => cases hcount
    | succ count =>
      have hrest := ih (Nat.le_of_succ_le_succ hcount)
      rw [recoverUpTo, if_neg (ne_true_of_eq_false hend)]
      cases hstep with
      | read hrun _ =>
        rw [hrun]
        dsimp only
        rw [hrest]
        rfl
      | lost hrun _ _ =>
        rw [hrun]
        dsimp only
        rw [hrest]
        rfl

/-- **Every stretch of a run is sound**, and the stretches are all the tokens up to where the run
    ends. -/
theorem sound (hrun : Stretches depth c stretches c') (h : Ended c.rest)
    (hdepth : 32 * c.rest.length + 18 ≤ depth) :
    c.rest = stretches.flatMap Stretch.tokens ++ c'.rest ∧ Ended c'.rest ∧ atEnd c'.rest = true ∧
      ∀ before stretch after, stretches = before ++ stretch :: after →
        stretch.Sound (after.flatMap Stretch.tokens ++ c'.rest) := by
  induction hrun with
  | done hend => exact ⟨rfl, h, hend, by simp⟩
  | @step c c₁ c₂ stretch stretches hend hstep _ ih =>
    obtain ⟨hrest, hended, hsound⟩ := hstep.sound h hdepth hend
    have hlen := congrArg List.length hrest
    rw [List.length_append] at hlen
    obtain ⟨htokens, hended', hend', hall⟩ := ih hended (by omega)
    refine ⟨?_, hended', hend', fun before s after hsplit => ?_⟩
    · rw [hrest, htokens, List.flatMap_cons, List.append_assoc]
    · cases before with
      | nil =>
        cases hsplit
        rwa [← htokens]
      | cons b before =>
        cases hsplit
        exact hall before s after rfl

/-- There are no more stretches than tokens. -/
theorem length_le (hrun : Stretches depth c stretches c') (h : Ended c.rest)
    (hdepth : 32 * c.rest.length + 18 ≤ depth) :
    stretches.length + c'.rest.length ≤ c.rest.length := by
  induction hrun with
  | done => exact Nat.le_of_eq (Nat.zero_add _)
  | @step c c₁ c₂ stretch stretches hend hstep _ ih =>
    obtain ⟨hrest, hended, hsound⟩ := hstep.sound h hdepth hend
    have hpos := List.length_pos_iff.2 hsound.ne_nil
    have hlen := congrArg List.length hrest
    rw [List.length_append] at hlen
    have hle := ih hended (by omega)
    rw [List.length_cons]
    omega

/-- **Neither a greater depth nor tokens behind the end of the file** change a run. -/
theorem further {depth' : Nat} (hrun : Stretches depth c stretches c') (h : Ended c.rest)
    (hdepth : 32 * c.rest.length + 18 ≤ depth) (hle : depth ≤ depth') (more : List Token) :
    Stretches depth' ⟨c.rest ++ more, c.nextSite⟩ stretches ⟨c'.rest ++ more, c'.nextSite⟩ := by
  induction hrun with
  | done hend => exact .done (by rwa [atEnd, h.frontToken_append])
  | @step c c₁ c₂ stretch stretches hend hstep _ ih =>
    obtain ⟨hrest, hended, -⟩ := hstep.sound h hdepth hend
    have hlen := congrArg List.length hrest
    rw [List.length_append] at hlen
    exact .step (by rwa [atEnd, h.frontToken_append]) (hstep.further h hdepth hle more)
      (ih hended (by omega))

end Stretches

/-! ## Whole programs -/

/-- A rest that is at the end, with an end of file in it, is the end of file. -/
theorem eq_of_atEnd {ts us rest : List Token} {eof : Token}
    (hts : ∀ t ∈ ts, t.kind ≠ .endOfFile) (h : ts ++ [eof] = us ++ rest) (hended : Ended rest)
    (hend : atEnd rest = true) : ts = us ∧ rest = [eof] := by
  rcases List.append_eq_append_iff.1 h with ⟨vs, rfl, hvs⟩ | ⟨vs, rfl, rfl⟩
  · cases vs with
    | nil => exact ⟨(List.append_nil ts).symm, hvs.symm⟩
    | cons v vs =>
      obtain ⟨-, hnil⟩ := List.cons.inj hvs
      exact absurd (List.append_eq_nil_iff.1 hnil.symm).2 hended.ne_nil
  · cases vs with
    | nil => exact ⟨List.append_nil us, rfl⟩
    | cons v vs => exact absurd (beq_iff_eq.1 hend) (hts v (by simp))

/-- Each stretch gives a statement or an error. -/
theorem Stretch.length_filterMap (stretches : List Stretch) :
    (stretches.filterMap statement?).length + (stretches.filterMap error?).length =
      stretches.length := by
  induction stretches with
  | nil => rfl
  | cons stretch stretches ih =>
    rw [List.length_cons, ← ih]
    cases stretch with
    | read => exact Nat.succ_add _ _
    | lost => rfl

/-- **Parsing goes on after errors, to the end of the file.**  The tokens before the end fall into
    stretches, none of them empty; each one is read as a declaration that its tokens derive, or lost
    to an error, after which the next one begins at the end, behind a semicolon or at a token that
    starts a statement.  So there are no more statements and errors than tokens.  The run stops at
    the end of the file, whatever stands behind it, and however much deeper and longer it may go. -/
theorem recovery_progresses {ts : List Token} {eof : Token} (hts : ∀ t ∈ ts, t.kind ≠ .endOfFile)
    (heof : eof.kind = .endOfFile) :
    ∃ (stretches : List Stretch) (site : Nat),
      parseRecovering (ts ++ [eof]) =
        (stretches.filterMap Stretch.statement?, stretches.filterMap Stretch.error?) ∧
      ts = stretches.flatMap Stretch.tokens ∧
      (∀ before stretch after, stretches = before ++ stretch :: after →
        stretch.Sound (after.flatMap Stretch.tokens ++ [eof])) ∧
      (parseRecovering (ts ++ [eof])).1.length + (parseRecovering (ts ++ [eof])).2.length ≤
        ts.length ∧
      ∀ depth count more, Parser.depthBound (ts ++ [eof]) ≤ depth → ts.length ≤ count →
        Stretches depth ⟨ts ++ eof :: more, 0⟩ stretches ⟨eof :: more, site⟩ ∧
        recoverUpTo depth count ⟨ts ++ eof :: more, 0⟩ =
          (parseRecovering (ts ++ [eof]), ⟨eof :: more, site⟩) := by
  have hended : Ended (ts ++ [eof]) := ⟨eof, by simp, heof⟩
  have hdepth : 32 * (ts ++ [eof]).length + 18 ≤ Parser.depthBound (ts ++ [eof]) := by
    rw [Parser.depthBound]
    omega
  obtain ⟨stretches, ⟨rest, site⟩, hrun⟩ := Stretches.exists (c := ⟨ts ++ [eof], 0⟩) hended hdepth
  obtain ⟨htokens, hended', hend, hsound⟩ := hrun.sound hended hdepth
  obtain ⟨hall, rfl⟩ := eq_of_atEnd hts htokens hended' hend
  have hlen : stretches.length ≤ ts.length := by
    have hle := hrun.length_le hended hdepth
    rw [List.length_append] at hle
    exact Nat.le_of_add_le_add_right hle
  have hparse : parseRecovering (ts ++ [eof]) =
      (stretches.filterMap Stretch.statement?, stretches.filterMap Stretch.error?) := by
    rw [parseRecovering, hrun.recoverUpTo_eq (Nat.le_trans hlen (by simp))]
  refine ⟨stretches, site, hparse, hall, hsound, ?_, fun depth count more hdepth' hcount => ?_⟩
  · rw [hparse, Stretch.length_filterMap]
    exact hlen
  · have hfurther := hrun.further hended hdepth hdepth' more
    rw [List.append_assoc] at hfurther
    exact ⟨hfurther, by rw [hparse]; exact hfurther.recoverUpTo_eq (Nat.le_trans hlen hcount)⟩

/-- The tokens of `a; let; b;`. -/
def spoilt : List Token :=
  [⟨.identifier, "a", 1⟩, ⟨.semicolon, ";", 1⟩, ⟨.let, "let", 1⟩, ⟨.semicolon, ";", 1⟩,
    ⟨.identifier, "b", 1⟩, ⟨.semicolon, ";", 1⟩]

theorem recovery_progresses_spoilt :
    let eof : Token := ⟨.endOfFile, "", 1⟩
    (∀ t ∈ spoilt, t.kind ≠ .endOfFile) ∧ eof.kind = .endOfFile ∧
      (parseRecovering (spoilt ++ [eof])).1.length = 2 ∧
      (parseRecovering (spoilt ++ [eof])).2 =
        [.grammar 1 (some ";") (.expected .variableName)] ∧
      ∃ (stretches : List Stretch) (site : Nat),
        parseRecovering (spoilt ++ [eof]) =
          (stretches.filterMap Stretch.statement?, stretches.filterMap Stretch.error?) ∧
        spoilt = stretches.flatMap Stretch.tokens ∧
        (∀ before stretch after, stretches = before ++ stretch :: after →
          stretch.Sound (after.flatMap Stretch.tokens ++ [eof])) ∧
        (parseRecovering (spoilt ++ [eof])).1.length +
          (parseRecovering (spoilt ++ [eof])).2.length ≤ spoilt.length ∧
        ∀ depth count more, Parser.depthBound (spoilt ++ [eof]) ≤ depth → spoilt.length ≤ count →
          Stretches depth ⟨spoilt ++ eof :: more, 0⟩ stretches ⟨eof :: more, site⟩ ∧
          recoverUpTo depth count ⟨spoilt ++ eof :: more, 0⟩ =
            (parseRecovering (spoilt ++ [eof]), ⟨eof :: more, site⟩) :=
  ⟨by decide, rfl, by rfl, by rfl, recovery_progresses (by decide) rfl⟩

end Scriptling
