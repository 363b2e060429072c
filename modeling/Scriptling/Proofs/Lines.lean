/-
  Lines — a text is scanned line by line.

  * `Scan.down`: what is scanned, some lines further down;
  * `Piece.extend`, `piece_extend`: what is found in front of a line break does not depend on what
    follows the break, unless it is a fault;
  * `scanFrom_down`: the number of the first line only counts;
  * `scan_append_line`: what is scanned before a line break comes first, and then what is scanned
    behind it, by itself.
-/
import Scriptling.Proofs.Scanning

namespace Scriptling

/-! ## Further down -/

/-- The token, `n` lines further down. -/
def Token.down (n : Nat) (t : Token) : Token := { t with line := t.line + n }

/-- The error, `n` lines further down. -/
def Error.down (n : Nat) : Error → Error
  | lexical line fault => lexical (line + n) fault
  | grammar line lexeme fault => grammar (line + n) lexeme fault
  | scoping line fault => scoping (line + n) fault
  | runtime line fault => runtime (line + n) fault
  | output fault => output fault

/-- What is scanned, `n` lines further down. -/
def Scan.down (n : Nat) (s : Scan) : Scan := ⟨s.tokens.map (·.down n), s.error.map (·.down n)⟩

/-- **The number of the first line only counts.** -/
theorem scanFrom_down (line n : Nat) (cs : List Char) :
    scanFrom (line + n) cs = (scanFrom line cs).down n := by
  induction h : cs.length using Nat.strongRecOn generalizing line cs with
  | ind len ih =>
  subst h
  cases cs with
  | nil => rw [scanFrom, scanFrom]; rfl
  | cons c cs =>
    have hlt := length_piece_rest_lt c cs
    rcases hpiece : piece c cs with ⟨text, rest⟩ | ⟨kind, text, rest⟩ | ⟨fault, text, rest⟩
    all_goals rw [hpiece] at hlt
    · rw [scanFrom_gap hpiece, scanFrom_gap hpiece, Nat.add_right_comm]
      exact ih _ hlt _ _ rfl
    · have hrest := ih _ hlt (line + lineBreaks text) rest rfl
      rw [scanFrom_token hpiece, scanFrom_token hpiece, Nat.add_right_comm]
      simp only [hrest]
      rfl
    · rw [scanFrom_fault hpiece, scanFrom_fault hpiece, Nat.add_right_comm]
      rfl

/-! ## In front of a line break -/

/-- The same piece, with more text behind it. -/
def Piece.extend (more : List Char) : Piece → Piece
  | gap text rest => gap text (rest ++ more)
  | token kind text rest => token kind text (rest ++ more)
  | fault cause text rest => fault cause text (rest ++ more)

section
variable {p : Char → Bool} {x : Char}

theorem takeWhile_append_cons (hx : p x = false) (cs more : List Char) :
    (cs ++ x :: more).takeWhile p = cs.takeWhile p := by
  induction cs with
  | nil => simp [hx]
  | cons c cs ih => simp only [List.cons_append, List.takeWhile_cons, ih]

theorem dropWhile_append_cons (hx : p x = false) (cs more : List Char) :
    (cs ++ x :: more).dropWhile p = cs.dropWhile p ++ x :: more := by
  induction cs with
  | nil => simp [hx]
  | cons c cs ih =>
    simp only [List.cons_append, List.dropWhile_cons, ih]
    split <;> rfl

end

section
variable (cs more : List Char)

theorem slashPiece_extend :
    slashPiece (cs ++ '\n' :: more) = (slashPiece cs).extend ('\n' :: more) := by
  cases cs with
  | nil => simp [slashPiece, Piece.extend]
  | cons c cs =>
    by_cases hc : c = '/'
    · subst hc
      simp only [List.cons_append, slashPiece, Piece.extend]
      rw [takeWhile_append_cons rfl, dropWhile_append_cons rfl]
    · simp [slashPiece, Piece.extend, hc]

/-- A string has to be closed in front of the line break. -/
theorem stringPiece_extend {cs : List Char} (hclosed : cs.dropWhile (· != '"') ≠ []) :
    stringPiece (cs ++ '\n' :: more) = (stringPiece cs).extend ('\n' :: more) := by
  obtain ⟨quote, rest, hrest⟩ := List.exists_cons_of_ne_nil hclosed
  obtain rfl : quote = '"' := @head?_dropWhile '"' cs quote (by simp [hrest])
  have hquote : '"' ∉ cs.takeWhile (· != '"') := notMem_takeWhile
  rw [← List.takeWhile_append_dropWhile (p := (· != '"')) (l := cs), hrest, List.append_assoc,
    List.cons_append, stringPiece_append hquote, stringPiece_append hquote]
  rfl

/-- A number may end in front of a point, but no digit comes after the line break. -/
theorem numberPiece_extend :
    numberPiece (cs ++ '\n' :: more) = (numberPiece cs).extend ('\n' :: more) := by
  unfold numberPiece
  rw [takeWhile_append_cons rfl, dropWhile_append_cons rfl]
  obtain _ | ⟨c, r⟩ := cs.dropWhile Char.isDigit
  · simp [Piece.extend]
  by_cases hc : c = '.'
  · subst hc
    obtain _ | ⟨d, r⟩ := r
    · simp [Piece.extend]
    by_cases hd : d.isDigit = true
    · have htake := takeWhile_append_cons (p := Char.isDigit) (x := '\n') rfl (d :: r) more
      have hdrop := dropWhile_append_cons (p := Char.isDigit) (x := '\n') rfl (d :: r) more
      rw [List.cons_append] at htake hdrop
      simp only [List.cons_append, hd, if_true, htake, hdrop, Piece.extend]
    · simp [hd, Piece.extend]
  · simp [hc, Piece.extend]

theorem wordPiece_extend :
    wordPiece (cs ++ '\n' :: more) = (wordPiece cs).extend ('\n' :: more) := by
  simp only [wordPiece, Piece.extend]
  rw [takeWhile_append_cons rfl, dropWhile_append_cons rfl]

theorem equalPiece_extend (c : Char) (long short : TokenKind) :
    equalPiece c long short (cs ++ '\n' :: more) =
      (equalPiece c long short cs).extend ('\n' :: more) := by
  cases cs with
  | nil => simp [equalPiece, Piece.extend]
  | cons d cs => by_cases hd : d = '=' <;> simp [equalPiece, Piece.extend, hd]

theorem doublePiece_extend {c : Char} (hc : c ≠ '\n') (kind : TokenKind) :
    doublePiece c kind (cs ++ '\n' :: more) = (doublePiece c kind cs).extend ('\n' :: more) := by
  cases cs with
  | nil => simp [doublePiece, Piece.extend, hc.symm]
  | cons d cs => by_cases hd : d = c <;> simp [doublePiece, Piece.extend, hd]

end

/-- **What is found in front of a line break** does not depend on what follows the break, unless it
    is a fault: a string may go on behind the break. -/
theorem piece_extend {c : Char} {cs : List Char} (more : List Char)
    (h : ∀ fault text rest, piece c cs ≠ .fault fault text rest) :
    piece c (cs ++ '\n' :: more) = (piece c cs).extend ('\n' :: more) := by
  have hbreak : c = '\n' → isSpace c = true := by
    rintro rfl
    rfl
  unfold piece at h ⊢
  split
  · rfl
  next hspace =>
  rw [if_neg hspace] at h
  split
  · exact slashPiece_extend cs more
  next hslash =>
  rw [if_neg hslash] at h
  split
  · next hquote =>
    refine stringPiece_extend more fun hopen => ?_
    rw [if_pos hquote, stringPiece, hopen] at h
    exact h _ _ _ rfl
  split
  · exact numberPiece_extend (c :: cs) more
  split
  · exact wordPiece_extend (c :: cs) more
  split
  · rfl
  · exact equalPiece_extend cs more ..
  · exact doublePiece_extend cs more (fun hc => hspace (hbreak hc)) _
  · rfl

/-! ## Line by line -/

/-- **A text without a fault is scanned by itself**, whatever stands behind the end of its last
    line; and so is what stands there. -/
theorem scanFrom_append_line {line : Nat} {a : List Char} (ha : (scanFrom line a).error = none)
    (b : List Char) :
    ∃ front last, scanFrom line a = ⟨front ++ [⟨.endOfFile, "", last⟩], none⟩ ∧
      scanFrom line (a ++ '\n' :: b) =
        let s := scanFrom (line + (1 + lineBreaks a)) b
        ⟨front ++ s.tokens, s.error⟩ := by
  induction h : a.length using Nat.strongRecOn generalizing line a with
  | ind len ih =>
  subst h
  cases a with
  | nil =>
    refine ⟨[], line, by rw [scanFrom]; rfl, ?_⟩
    rw [List.nil_append, scanFrom_gap (piece_of_isSpace rfl b)]
    rfl
  | cons c cs =>
    have hlt := length_piece_rest_lt c cs
    have hsplit := piece_text_append c cs
    have hextend := @piece_extend c cs b
    rcases hpiece : piece c cs with ⟨text, rest⟩ | ⟨kind, text, rest⟩ | ⟨fault, text, rest⟩
    all_goals
      rw [hpiece] at hlt hsplit hextend
      have hlines : line + (1 + lineBreaks (c :: cs)) =
          line + lineBreaks text + (1 + lineBreaks rest) := by
        rw [← hsplit, lineBreaks_append]
        simp only [Piece.text, Piece.rest]
        omega
    · rw [scanFrom_gap hpiece] at ha ⊢
      rw [List.cons_append, scanFrom_gap (hextend (by simp)), hlines]
      exact ih _ hlt ha rfl
    · rw [scanFrom_token hpiece] at ha ⊢
      obtain ⟨front, last, hfront, hrest⟩ := ih _ hlt ha rfl
      rw [List.cons_append, scanFrom_token (hextend (by simp)), hlines]
      refine ⟨⟨kind, .ofList text, line + lineBreaks text⟩ :: front, last, ?_, ?_⟩
      · rw [hfront]
        rfl
      · rw [hrest]
        rfl
    · rw [scanFrom_fault hpiece] at ha
      cases ha

/-- **Scanning goes line by line.**  What is scanned of two texts with a line break between them is,
    if the first has no fault, its tokens without the end, and then all that is scanned of the
    second, with its fault if it has one, further down by the line breaks before it. -/
theorem scan_append_line {a : String} (ha : (scan a).error = none) (b : String) :
    ∃ front last, scan a = ⟨front ++ [⟨.endOfFile, "", last⟩], none⟩ ∧
      scan (a ++ "\n" ++ b) =
        let s := (scan b).down (1 + lineBreaks a.toList)
        ⟨front ++ s.tokens, s.error⟩ := by
  rw [scan_eq] at ha
  obtain ⟨front, last, hfront, hscan⟩ := scanFrom_append_line ha b.toList
  have htext : (a ++ "\n" ++ b).toList = a.toList ++ '\n' :: b.toList := by
    simp [String.toList_append]
  refine ⟨front, last, (scan_eq a).trans hfront, ?_⟩
  rw [scan_eq, htext, hscan, scanFrom_down, scan_eq b]

theorem scan_append_line_comment :
    (scan "x = 1.// 2").error = none ∧
      ∃ front last, scan "x = 1.// 2" = ⟨front ++ [⟨.endOfFile, "", last⟩], none⟩ ∧
        scan ("x = 1.// 2" ++ "\n" ++ "5 &&\n &") =
          let s := (scan "5 &&\n &").down (1 + lineBreaks "x = 1.// 2".toList)
          ⟨front ++ s.tokens, s.error⟩ := by
  have hscan : (scan "x = 1.// 2").error = none := by decide +kernel
  exact ⟨hscan, scan_append_line hscan "5 &&\n &"⟩

end Scriptling
