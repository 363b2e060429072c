/-
  Placement — where in the text the tokens are.

  Places are those of the text itself: between two of its characters, never within the bytes of
  one.  The scanner counts bytes and could cut anywhere; that its cuts are at places is what
  `ask_scan` says, since a cut elsewhere has no outcome.

  * `Placed`: the tokens are slices of the text, one after the other, with only gaps between them,
    up to the end or to a fault; each has the line of the place where it ends;
  * `Scanned.placed`: what is read from a place on is placed from there on;
  * `scan_placed`: scanning loses and invents nothing.
-/
import Scriptling.Proofs.Scanning

namespace Scriptling

variable {source : String}

/-! ## Places and lines -/

section
variable {p q : source.Pos} {a b c : String}

theorem le_of_splits (hp : p.Splits a (b ++ c)) (hq : q.Splits (a ++ b) c) : p ≤ q := by
  rw [String.Pos.le_iff, hp.offset_eq_rawEndPos, hq.offset_eq_rawEndPos]
  simp [String.Pos.Raw.le_iff]

theorem lt_of_splits (hp : p.Splits a (b ++ c)) (hq : q.Splits (a ++ b) c) (hb : b ≠ "") :
    p < q := by
  have : 0 < b.utf8ByteSize :=
    Nat.pos_of_ne_zero fun h => hb (String.utf8ByteSize_eq_zero_iff.1 h)
  rw [String.Pos.lt_iff, hp.offset_eq_rawEndPos, hq.offset_eq_rawEndPos]
  simp [String.Pos.Raw.lt_iff, this]

end

/-- The line of a place: one more than the line breaks before it. -/
def lineAt (source : String) (p : source.Pos) : Nat :=
  1 + lineBreaks (source.extract source.startPos p).toList

theorem lineAt_of_splits {p : source.Pos} {a b : String} (hp : p.Splits a b) :
    lineAt source p = 1 + lineBreaks a.toList := by
  rw [lineAt, extract_of_splits (a := "") (b := a) (c := b)]
  · simpa using hp.eq_append.symm
  · simpa using hp

/-! ## Where the tokens are -/

/-- **A scan is placed** in the text from a place on.  Up to the end of the text or to its first
    fault there is one token after another, each the slice from a `start` to a later `stop`; what
    is left out before a token, the fault and the end is a gap. -/
inductive Placed (source : String) : source.Pos → Scan → Prop
  | finish {p} : Trivia true (source.extract p source.endPos).toList →
      Placed source p ⟨[⟨.endOfFile, "", lineAt source source.endPos⟩], none⟩
  | token {p start stop kind tokens error} : p ≤ start → start < stop →
      Trivia false (source.extract p start).toList →
      Lexeme kind (source.extract start stop).toList →
      Placed source stop ⟨tokens, error⟩ →
      Placed source p ⟨⟨kind, source.extract start stop, lineAt source stop⟩ :: tokens, error⟩
  | fault {p start stop fault} : p ≤ start → start < stop →
      Trivia false (source.extract p start).toList →
      fault.Noticed (source.extract start stop).toList (source.extract stop source.endPos).toList →
      Placed source p ⟨[], some (.lexical (lineAt source stop) fault)⟩

/-- Two places after one: a gap and a text are the slices between them. -/
theorem exists_places {p : source.Pos} {before gap text rest : List Char}
    (hp : p.Splits (.ofList before) (.ofList (gap ++ text ++ rest))) (ht : text ≠ []) :
    ∃ start stop : source.Pos, p ≤ start ∧ start < stop ∧
      source.extract p start = .ofList gap ∧ source.extract start stop = .ofList text ∧
      source.extract stop source.endPos = .ofList rest ∧
      stop.Splits (.ofList (before ++ (gap ++ text))) (.ofList rest) := by
  have hsource := hp.eq_append
  simp only [String.ofList_append, String.append_assoc] at hp hsource ⊢
  have ht' : String.ofList text ≠ "" := by simpa using ht
  obtain ⟨start, hstart⟩ : ∃ start : source.Pos,
      start.Splits (.ofList before ++ .ofList gap) (.ofList text ++ .ofList rest) :=
    exists_splits (by simpa only [String.append_assoc] using hsource)
  obtain ⟨stop, hstop⟩ : ∃ stop : source.Pos,
      stop.Splits (.ofList before ++ .ofList gap ++ .ofList text) (.ofList rest) :=
    exists_splits (by simpa only [String.append_assoc] using hsource)
  refine ⟨start, stop, le_of_splits hp hstart, lt_of_splits hstart hstop ht',
    extract_of_splits hp hstart, extract_of_splits hstart hstop, ?_,
    by simpa only [String.append_assoc] using hstop⟩
  refine extract_of_splits (b := .ofList rest) (c := "") (by simpa using hstop) ?_
  simpa using hstop.eq_append.symm

theorem LexicalFault.Noticed.ne_nil {fault : LexicalFault} {text rest : List Char}
    (h : fault.Noticed text rest) : text ≠ [] := by
  cases h <;> simp

/-- **What is read from a place on is placed** from there on. -/
theorem Scanned.placed {line : Nat} {cs : List Char} {s : Scan} (h : Scanned line cs s)
    {p : source.Pos} {before : List Char} (hp : p.Splits (.ofList before) (.ofList cs))
    (hl : line = 1 + lineBreaks before) : Placed source p s := by
  induction h generalizing p before with
  | @finish line gap hg =>
    have hsource := hp.eq_append
    have hgap : source.extract p source.endPos = .ofList gap :=
      extract_of_splits (c := "") (by simpa using hp) (by simpa using hsource.symm)
    have hline : lineAt source source.endPos = line + lineBreaks gap := by
      rw [lineAt_of_splits source.splits_endPos, hsource, hl]
      simp [Nat.add_assoc]
    rw [← hline]
    exact .finish (by rwa [hgap, String.toList_ofList])
  | @token line gap kind text rest tokens error hg hk _ ih =>
    obtain ⟨start, stop, hle, hlt, hgap, htext, -, hstop⟩ := exists_places hp hk.ne_nil
    have hline : lineAt source stop = line + lineBreaks (gap ++ text) := by
      rw [lineAt_of_splits hstop, hl]
      simp [Nat.add_assoc]
    rw [← hline, ← htext]
    refine .token hle hlt (by rwa [hgap, String.toList_ofList])
      (by rwa [htext, String.toList_ofList]) (ih hstop ?_)
    simp [hl, Nat.add_assoc]
  | @fault line gap fault text rest hg hn =>
    obtain ⟨start, stop, hle, hlt, hgap, htext, hrest, hstop⟩ := exists_places hp hn.ne_nil
    have hline : lineAt source stop = line + lineBreaks (gap ++ text) := by
      rw [lineAt_of_splits hstop, hl]
      simp [Nat.add_assoc]
    rw [← hline]
    refine .fault hle hlt (by rwa [hgap, String.toList_ofList]) ?_
    rwa [htext, hrest, String.toList_ofList, String.toList_ofList]

/-- **Scanning loses and invents nothing.**  Every call for a token has an outcome, so no slice that
    the scanner takes splits a character, and hands out the next item of the scan, or nothing when
    all items have been handed out.  The tokens of every text are slices of it, in order and apart;
    all else is white space and comments; token and fault have the line of the place where they
    end.  The end is marked once, as the last of all, unless there is a fault; then nothing comes
    after the tokens before it. -/
theorem scan_placed (source : String) :
    (∀ k, Scanner.ask k { source } = some (scan source).items[k]?) ∧
      Placed source source.startPos (scan source) ∧
      ∃ front, (∀ t ∈ front, t.kind ≠ .endOfFile) ∧
        ((∃ line, scan source = ⟨front ++ [⟨.endOfFile, "", line⟩], none⟩) ∨
          ∃ line fault, scan source = ⟨front, some (.lexical line fault)⟩) := by
  have h := scan_scanned source
  have hp : source.startPos.Splits (.ofList []) (.ofList source.toList) := by simp
  obtain ⟨front, hfront, hends⟩ := h.ends
  exact ⟨ask_scan source, h.placed hp rfl, front,
    fun t ht => (hfront t ht).kind_ne_endOfFile, hends⟩

end Scriptling
