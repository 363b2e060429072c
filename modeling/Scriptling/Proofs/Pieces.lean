/-
  Pieces — a text as the characters that it consists of, cut into pieces.

  A text is cut into gaps (white space and comments), tokens, and at most one fault, at which
  scanning stops.

  * `piece`: what stands at the front of a text; `piece_text_append`: a piece and what follows it are
    the text, nothing is lost;
  * `scanFrom`: the tokens of a text, piece by piece.
-/
import Scriptling.Token.Scan

namespace Scriptling

/-! ## Pieces -/

/-- What stands at the front of a text, and the rest of the text. -/
inductive Piece where
  /-- White space or a comment. -/
  | gap (text rest : List Char)
  | token (kind : TokenKind) (text rest : List Char)
  /-- The text up to where the fault is noticed. -/
  | fault (fault : LexicalFault) (text rest : List Char)

namespace Piece

/-- The text of a piece. -/
def text : Piece → List Char
  | gap text _ | token _ text _ | fault _ text _ => text

/-- What follows a piece. -/
def rest : Piece → List Char
  | gap _ rest | token _ _ rest | fault _ _ rest => rest

end Piece

/-- A string, after its opening quote: everything up to the next quote. -/
def stringPiece (cs : List Char) : Piece :=
  let contents := cs.takeWhile (· != '"')
  match cs.dropWhile (· != '"') with
  | [] => .fault .openString ('"' :: contents) []
  | quote :: rest =>
    .token (.string (String.ofList contents)) ('"' :: contents ++ [quote]) rest

/-- A number: digits, and if a digit follows a point, the point and more digits. -/
def numberPiece (cs : List Char) : Piece :=
  let whole := cs.takeWhile Char.isDigit
  match cs.dropWhile Char.isDigit with
  | '.' :: d :: r =>
    if d.isDigit then
      let fraction := (d :: r).takeWhile Char.isDigit
      .token (.number (.ofDigits whole fraction)) (whole ++ '.' :: fraction)
        ((d :: r).dropWhile Char.isDigit)
    else .token (.number (.ofDigits whole [])) whole ('.' :: d :: r)
  | r => .token (.number (.ofDigits whole [])) whole r

/-- A word: a keyword or a name. -/
def wordPiece (cs : List Char) : Piece :=
  let word := cs.takeWhile isWordChar
  .token (.ofWord (String.ofList word)) word (cs.dropWhile isWordChar)

/-- A comment, up to the end of its line, or a division sign. -/
def slashPiece : List Char → Piece
  | '/' :: cs => .gap ('/' :: '/' :: cs.takeWhile (· != '\n')) (cs.dropWhile (· != '\n'))
  | cs => .token .slash ['/'] cs

/-- A mark that is longer if `=` follows. -/
def equalPiece (c : Char) (long short : TokenKind) : List Char → Piece
  | '=' :: cs => .token long [c, '='] cs
  | cs => .token short [c] cs

/-- A mark that has to be doubled. -/
def doublePiece (c : Char) (kind : TokenKind) : List Char → Piece
  | d :: cs => if d = c then .token kind [c, c] cs else .fault (.lone c) [c] (d :: cs)
  | [] => .fault (.lone c) [c] []

/-- The piece at the front of the text `c :: cs`. -/
def piece (c : Char) (cs : List Char) : Piece :=
  if isSpace c then .gap [c] cs
  else if c = '/' then slashPiece cs
  else if c = '"' then stringPiece cs
  else if c.isDigit then numberPiece (c :: cs)
  else if isWordStart c then wordPiece (c :: cs)
  else match singleMark? c, equalMark? c, doubleMark? c with
    | some kind, _, _ => .token kind [c] cs
    | none, some (long, short), _ => equalPiece c long short cs
    | none, none, some kind => doublePiece c kind cs
    | none, none, none => .fault (.stray c) [c] cs

/-- Nothing is lost between a piece and what follows it. -/
theorem piece_text_append (c : Char) (cs : List Char) :
    (piece c cs).text ++ (piece c cs).rest = c :: cs := by
  unfold piece
  split
  · rfl
  split
  · next h =>
    subst h
    unfold slashPiece
    split <;> simp [Piece.text, Piece.rest, List.takeWhile_append_dropWhile]
  split
  · next h =>
    subst h
    unfold stringPiece
    have hs := List.takeWhile_append_dropWhile (p := (· != '"')) (l := cs)
    split
    · next h => rw [h, List.append_nil] at hs; simp [Piece.text, Piece.rest, hs]
    · next q r h => rw [h] at hs; simp [Piece.text, Piece.rest, hs]
  split
  · unfold numberPiece
    have hs := List.takeWhile_append_dropWhile (p := Char.isDigit) (l := c :: cs)
    split
    · next d r h =>
      rw [h] at hs
      split
      · simp only [Piece.text, Piece.rest, List.append_assoc, List.cons_append]
        rw [List.takeWhile_append_dropWhile, hs]
      · exact hs
    · exact hs
  split
  · exact List.takeWhile_append_dropWhile
  split
  · rfl
  · unfold equalPiece
    split <;> rfl
  · unfold doublePiece
    split
    · split
      · next h => subst h; rfl
      · rfl
    · rfl
  · rfl

/-- A piece is not empty. -/
theorem piece_text_ne_nil (c : Char) (cs : List Char) : (piece c cs).text ≠ [] := by
  unfold piece
  split
  · simp [Piece.text]
  split
  · unfold slashPiece; split <;> simp [Piece.text]
  split
  · unfold stringPiece; split <;> simp [Piece.text]
  split
  · next h => unfold numberPiece; split <;> (try split) <;> simp [Piece.text, h]
  split
  · next h =>
    have : isWordChar c = true := by
      unfold isWordChar; unfold isWordStart at h
      simp only [Char.isAlphanum, Bool.or_eq_true] at h ⊢
      exact h.imp_left .inl
    simp [wordPiece, Piece.text, this]
  split
  · simp [Piece.text]
  · unfold equalPiece; split <;> simp [Piece.text]
  · unfold doublePiece; split <;> (try split) <;> simp [Piece.text]
  · simp [Piece.text]

theorem length_piece_rest_lt (c : Char) (cs : List Char) :
    (piece c cs).rest.length < (c :: cs).length := by
  rw [← piece_text_append c cs, List.length_append]
  have := List.length_pos_iff.2 (piece_text_ne_nil c cs)
  omega

/-! ## From piece to piece -/

/-- How many lines a text ends. -/
def lineBreaks (text : List Char) : Nat := text.count '\n'

/-- Scans a text whose first line has the given number. -/
def scanFrom (line : Nat) : List Char → Scan
  | [] => ⟨[⟨.endOfFile, "", line⟩], none⟩
  | c :: cs =>
    let p := piece c cs
    let line := line + lineBreaks p.text
    match p with
    | .gap .. => scanFrom line p.rest
    | .token kind text _ =>
      let s := scanFrom line p.rest
      { s with tokens := ⟨kind, String.ofList text, line⟩ :: s.tokens }
    | .fault fault .. => ⟨[], some (.lexical line fault)⟩
termination_by cs => cs.length
decreasing_by all_goals exact length_piece_rest_lt c cs

end Scriptling
