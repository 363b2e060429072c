/-
  Lexemes — which texts are tokens, and what may stand between them.

  * `Lexeme`: a kind of token and the texts that are tokens of the kind;
  * `Trivia`: white space and comments, each comment with the break of its line;
  * `LexicalFault.Noticed`: the text in which a fault is noticed;
  * `piece_sound`: what stands at the front of a text is layout, a token or a fault;
  * `Trivia.scanFrom_append`, `Lexeme.piece_append`: how layout is scanned, and how a token
    in front of white space is;
  * `Lexeme.spelt`: what names and numbers are spelt with.
-/
import Mathlib.Data.List.TakeWhile
import Scriptling.Proofs.Pieces

namespace Scriptling

/-! ## The lexical grammar -/

/-- **The texts of tokens**, each with the kind of the token. -/
inductive Lexeme : TokenKind → List Char → Prop
  | single {c kind} : singleMark? c = some kind → Lexeme kind [c]
  | long {c long short} : equalMark? c = some (long, short) → Lexeme long [c, '=']
  | short {c long short} : equalMark? c = some (long, short) → Lexeme short [c]
  | double {c kind} : doubleMark? c = some kind → Lexeme kind [c, c]
  | slash : Lexeme .slash ['/']
  | string {contents} : '"' ∉ contents →
      Lexeme (.string (String.ofList contents)) ('"' :: (contents ++ ['"']))
  | whole {d ds} : d.isDigit = true → (∀ c ∈ ds, c.isDigit = true) →
      Lexeme (.number (.ofDigits (d :: ds) [])) (d :: ds)
  | fraction {d ds e es} : d.isDigit = true → (∀ c ∈ ds, c.isDigit = true) →
      e.isDigit = true → (∀ c ∈ es, c.isDigit = true) →
      Lexeme (.number (.ofDigits (d :: ds) (e :: es))) (d :: (ds ++ '.' :: e :: es))
  | word {c cs} : isWordStart c = true → (∀ d ∈ cs, isWordChar d = true) →
      Lexeme (.ofWord (String.ofList (c :: cs))) (c :: cs)

/-- **What may stand between tokens**: white space, and comments up to the end of their line.  Only
    a comment that comes `last` of all is without a line break after it. -/
inductive Trivia (last : Bool) : List Char → Prop
  | nil : Trivia last []
  | space {c cs} : isSpace c = true → Trivia last cs → Trivia last (c :: cs)
  | comment {body cs} : '\n' ∉ body → Trivia last cs →
      Trivia last ('/' :: '/' :: (body ++ '\n' :: cs))
  | lastComment {body} : last = true → '\n' ∉ body → Trivia last ('/' :: '/' :: body)

/-- **A fault is noticed when a text has been read**, in front of the rest: at a single character,
    or at the end of everything, if that is still in a string. -/
inductive LexicalFault.Noticed : LexicalFault → List Char → List Char → Prop
  | lone {c kind rest} : doubleMark? c = some kind → rest.head? ≠ some c →
      Noticed (.lone c) [c] rest
  | openString {contents} : '"' ∉ contents → Noticed .openString ('"' :: contents) []
  | stray {c rest} : (∀ kind cs, ¬ Lexeme kind (c :: cs)) → isSpace c = false →
      Noticed (.stray c) [c] rest

/-! ## Classes of characters

The characters that begin the different kinds of pieces are told apart here, once. -/

theorem isSpace_iff {c : Char} :
    isSpace c = true ↔ c = ' ' ∨ c = '\t' ∨ c = '\r' ∨ c = '\n' := by
  simp [isSpace, or_assoc]

theorem isDigit_of_isSpace {c : Char} (h : isSpace c = true) : c.isDigit = false := by
  obtain rfl | rfl | rfl | rfl := isSpace_iff.1 h <;> rfl

theorem isWordChar_of_isSpace {c : Char} (h : isSpace c = true) : isWordChar c = false := by
  obtain rfl | rfl | rfl | rfl := isSpace_iff.1 h <;> rfl

theorem isWordChar_of_isWordStart {c : Char} (h : isWordStart c = true) :
    isWordChar c = true := by
  simp only [isWordChar, isWordStart, Char.isAlphanum, Bool.or_eq_true] at h ⊢
  exact h.imp_left .inl

theorem isDigit_of_isWordStart {c : Char} (h : isWordStart c = true) : c.isDigit = false := by
  unfold isWordStart Char.isAlpha Char.isUpper Char.isLower at h
  unfold Char.isDigit
  by_cases hc : c = '_'
  · rw [hc]; rfl
  · simp [hc, UInt32.le_iff_toNat_le] at h ⊢
    omega

theorem isWordStart_of_isSpace {c : Char} (h : isSpace c = true) : isWordStart c = false :=
  Bool.eq_false_iff.2 fun hw =>
    Bool.eq_false_iff.1 (isWordChar_of_isSpace h) (isWordChar_of_isWordStart hw)

/-! ## The piece at the front of a text -/

theorem piece_of_isSpace {c : Char} (h : isSpace c = true) (cs : List Char) :
    piece c cs = .gap [c] cs := if_pos h

theorem piece_slash (cs : List Char) : piece '/' cs = slashPiece cs := rfl

theorem piece_quote (cs : List Char) : piece '"' cs = stringPiece cs := rfl

theorem piece_of_isDigit {c : Char} (h : c.isDigit = true) (cs : List Char) :
    piece c cs = numberPiece (c :: cs) := by
  have hs : isSpace c = false := Bool.eq_false_iff.2 fun hs => by simp_all [isDigit_of_isSpace hs]
  have : c ≠ '/' ∧ c ≠ '"' := by constructor <;> rintro rfl <;> revert h <;> decide
  simp [piece, hs, this, h]

theorem piece_of_isWordStart {c : Char} (h : isWordStart c = true) (cs : List Char) :
    piece c cs = wordPiece (c :: cs) := by
  have hs : isSpace c = false :=
    Bool.eq_false_iff.2 fun hs => by simp_all [isWordStart_of_isSpace hs]
  have : c ≠ '/' ∧ c ≠ '"' := by constructor <;> rintro rfl <;> revert h <;> decide
  simp [piece, hs, this, isDigit_of_isWordStart h, h]

/-- What `piece` may find: white space, a comment up to a line break or the end, a token, or a
    fault. -/
inductive Piece.Sound : Piece → Prop
  | space {c rest} : isSpace c = true → Sound (.gap [c] rest)
  | comment {body rest} : '\n' ∉ body → (∀ c ∈ rest.head?, c = '\n') →
      Sound (.gap ('/' :: '/' :: body) rest)
  | token {kind text rest} : Lexeme kind text → Sound (.token kind text rest)
  | fault {fault text rest} : fault.Noticed text rest → Sound (.fault fault text rest)

theorem notMem_takeWhile {x : Char} {cs : List Char} : x ∉ cs.takeWhile (· != x) := fun h => by
  simpa using List.mem_takeWhile_imp h

theorem head?_dropWhile {x : Char} {cs : List Char} :
    ∀ c ∈ (cs.dropWhile (· != x)).head?, c = x := by
  intro c hc
  have := List.head?_dropWhile_not (· != x) cs
  rw [Option.mem_def.1 hc] at this
  simpa using this

theorem slashPiece_sound (cs : List Char) : (slashPiece cs).Sound := by
  unfold slashPiece
  split
  · exact .comment notMem_takeWhile head?_dropWhile
  · exact .token .slash

theorem stringPiece_sound (cs : List Char) : (stringPiece cs).Sound := by
  unfold stringPiece
  split
  · exact .fault (.openString notMem_takeWhile)
  · next quote rest h =>
    have hquote : quote ∈ (cs.dropWhile (· != '"')).head? := by simp [h]
    obtain rfl := head?_dropWhile quote hquote
    exact .token (.string notMem_takeWhile)

theorem numberPiece_sound {d : Char} {cs : List Char} (hd : d.isDigit = true) :
    (numberPiece (d :: cs)).Sound := by
  have hw : (d :: cs).takeWhile Char.isDigit = d :: cs.takeWhile Char.isDigit := by simp [hd]
  unfold numberPiece
  simp only [hw]
  split
  · next e r _ =>
    split
    · next he =>
      have hf : (e :: r).takeWhile Char.isDigit = e :: r.takeWhile Char.isDigit := by simp [he]
      rw [hf]
      exact .token (.fraction hd (fun _ => List.mem_takeWhile_imp) he
        fun _ => List.mem_takeWhile_imp)
    · exact .token (.whole hd fun _ => List.mem_takeWhile_imp)
  · exact .token (.whole hd fun _ => List.mem_takeWhile_imp)

theorem wordPiece_sound {c : Char} {cs : List Char} (hc : isWordStart c = true) :
    (wordPiece (c :: cs)).Sound := by
  have hw : (c :: cs).takeWhile isWordChar = c :: cs.takeWhile isWordChar := by
    simp [isWordChar_of_isWordStart hc]
  unfold wordPiece
  rw [hw]
  exact .token (.word hc fun _ => List.mem_takeWhile_imp)

theorem equalPiece_sound {c : Char} {long short : TokenKind}
    (h : equalMark? c = some (long, short)) (cs : List Char) :
    (equalPiece c long short cs).Sound := by
  unfold equalPiece
  split
  · exact .token (.long h)
  · exact .token (.short h)

theorem doublePiece_sound {c : Char} {kind : TokenKind} (h : doubleMark? c = some kind)
    (cs : List Char) : (doublePiece c kind cs).Sound := by
  unfold doublePiece
  split
  · next d cs =>
    split
    · exact .token (.double h)
    · next hd => exact .fault (.lone h (by simpa using hd))
  · exact .fault (.lone h (by simp))

/-- **What stands at the front of a text** is white space, a comment, a token or a fault. -/
theorem piece_sound (c : Char) (cs : List Char) : (piece c cs).Sound := by
  unfold piece
  split
  · next h => exact .space h
  rename_i hspace
  split
  · exact slashPiece_sound cs
  split
  · exact stringPiece_sound cs
  split
  · next h => exact numberPiece_sound h
  split
  · next h => exact wordPiece_sound h
  split
  · next h => exact .token (.single h)
  · next h => exact equalPiece_sound h cs
  · next h => exact doublePiece_sound h cs
  · refine .fault (.stray (fun kind text hl => ?_) (by simpa using hspace))
    cases hl <;> simp_all

/-! ## Scanning piece by piece -/

section
variable {line : Nat} {c : Char} {cs text rest : List Char}

theorem scanFrom_gap (h : piece c cs = .gap text rest) :
    scanFrom line (c :: cs) = scanFrom (line + lineBreaks text) rest := by
  rw [scanFrom]
  simp only [h]
  rfl

theorem scanFrom_token {kind : TokenKind} (h : piece c cs = .token kind text rest) :
    scanFrom line (c :: cs) =
      let s := scanFrom (line + lineBreaks text) rest
      ⟨⟨kind, String.ofList text, line + lineBreaks text⟩ :: s.tokens, s.error⟩ := by
  rw [scanFrom]
  simp only [h]
  rfl

theorem scanFrom_fault {fault : LexicalFault} (h : piece c cs = .fault fault text rest) :
    scanFrom line (c :: cs) = ⟨[], some (.lexical (line + lineBreaks text) fault)⟩ := by
  rw [scanFrom]
  simp only [h]
  rfl

end

@[simp] theorem lineBreaks_append (a b : List Char) :
    lineBreaks (a ++ b) = lineBreaks a + lineBreaks b := List.count_append

theorem lineBreaks_cons (c : Char) (cs : List Char) :
    lineBreaks (c :: cs) = lineBreaks [c] + lineBreaks cs := lineBreaks_append [c] cs

/-! ## What scanning finds -/

theorem Trivia.last {gap : List Char} (h : Trivia false gap) : Trivia true gap := by
  induction h with
  | nil => exact .nil
  | space hc _ ih => exact .space hc ih
  | comment hb _ ih => exact .comment hb ih
  | lastComment h => cases h

/-- **A text is read** from a line on: gaps and tokens in turn, up to the end or to a fault.  Every
    line is counted by the breaks up to where the token, the text or the reading ends. -/
inductive Scanned : Nat → List Char → Scan → Prop
  | finish {line gap} : Trivia true gap →
      Scanned line gap ⟨[⟨.endOfFile, "", line + lineBreaks gap⟩], none⟩
  | token {line gap kind text rest tokens error} : Trivia false gap → Lexeme kind text →
      Scanned (line + lineBreaks (gap ++ text)) rest ⟨tokens, error⟩ →
      Scanned line (gap ++ text ++ rest)
        ⟨⟨kind, String.ofList text, line + lineBreaks (gap ++ text)⟩ :: tokens, error⟩
  | fault {line gap fault text rest} : Trivia false gap → fault.Noticed text rest →
      Scanned line (gap ++ text ++ rest)
        ⟨[], some (.lexical (line + lineBreaks (gap ++ text)) fault)⟩

/-- The first gap may be longer. -/
theorem Scanned.prepend {front cs : List Char} {line : Nat} {s : Scan}
    (hf : ∀ last gap, Trivia last gap → Trivia last (front ++ gap))
    (h : Scanned (line + lineBreaks front) cs s) : Scanned line (front ++ cs) s := by
  generalize hl : line + lineBreaks front = line' at h
  cases h with
  | finish hg =>
    subst hl
    rw [Nat.add_assoc, ← lineBreaks_append]
    exact .finish (hf _ _ hg)
  | token hg hk hs =>
    subst hl
    simp only [Nat.add_assoc, ← lineBreaks_append, ← List.append_assoc] at hs ⊢
    exact .token (hf _ _ hg) hk hs
  | fault hg hn =>
    subst hl
    simp only [Nat.add_assoc, ← lineBreaks_append, ← List.append_assoc]
    exact .fault (hf _ _ hg) hn

/-- **Scanning reads the text.** -/
theorem scanFrom_scanned (line : Nat) (cs : List Char) : Scanned line cs (scanFrom line cs) := by
  induction h : cs.length using Nat.strongRecOn generalizing line cs with
  | ind n ih =>
  subst h
  cases cs with
  | nil => rw [scanFrom]; exact .finish .nil
  | cons c cs =>
    have happ := piece_text_append c cs
    have hlt := length_piece_rest_lt c cs
    generalize hp : piece c cs = found at happ hlt
    have hsound : found.Sound := hp ▸ piece_sound c cs
    cases hsound with
    | @space c' rest hc =>
      rw [scanFrom_gap hp, ← happ]
      exact .prepend (fun _ _ => .space hc) (ih _ hlt _ _ rfl)
    | @comment body rest hb hr =>
      rw [scanFrom_gap hp, ← happ]
      cases rest with
      | nil =>
        rw [scanFrom, Piece.text, Piece.rest, List.append_nil]
        exact .finish (.lastComment rfl hb)
      | cons d r =>
        -- the comment's gap ends at the break of its line, which is a gap of its own
        obtain rfl := hr d rfl
        rw [scanFrom_gap (piece_of_isSpace rfl r), Nat.add_assoc, ← lineBreaks_append]
        have hlt' : r.length < (c :: cs).length := Nat.lt_of_succ_lt hlt
        change Scanned line ('/' :: '/' :: body ++ '\n' :: r) _
        rw [List.append_cons]
        exact .prepend (fun last gap hg => by simpa using Trivia.comment hb hg) (ih _ hlt' _ _ rfl)
    | @token kind text rest hk =>
      rw [scanFrom_token hp, ← happ]
      exact @Scanned.token line [] kind text rest _ _ .nil hk (ih _ hlt _ _ rfl)
    | @fault fault text rest hn =>
      rw [scanFrom_fault hp, ← happ]
      exact @Scanned.fault line [] fault text rest .nil hn

/-- Only the end of a text is marked as the end, and only if there is no fault; all other tokens
    have the texts of their kinds. -/
theorem Scanned.ends {line : Nat} {cs : List Char} {s : Scan} (h : Scanned line cs s) :
    ∃ front : List Token, (∀ t ∈ front, Lexeme t.kind t.lexeme.toList) ∧
      ((∃ line, s = ⟨front ++ [⟨.endOfFile, "", line⟩], none⟩) ∨
        ∃ line fault, s = ⟨front, some (.lexical line fault)⟩) := by
  induction h with
  | finish => exact ⟨[], List.forall_mem_nil _, .inl ⟨_, rfl⟩⟩
  | fault => exact ⟨[], List.forall_mem_nil _, .inr ⟨_, _, rfl⟩⟩
  | @token line gap kind text _ _ _ _ hk _ ih =>
    obtain ⟨front, hfront, hs⟩ := ih
    have hcons : ∀ t ∈ (⟨kind, .ofList text, line + lineBreaks (gap ++ text)⟩ : Token) :: front,
        Lexeme t.kind t.lexeme.toList :=
      List.forall_mem_cons.2 ⟨by rwa [String.toList_ofList], hfront⟩
    obtain ⟨_, hs⟩ | ⟨_, _, hs⟩ := hs <;> cases hs
    · exact ⟨_, hcons, .inl ⟨_, rfl⟩⟩
    · exact ⟨_, hcons, .inr ⟨_, _, rfl⟩⟩

/-! ## Scanning layout -/

section
variable {p : Char → Bool} {xs rest : List Char}

theorem takeWhile_append_stop (hx : ∀ c ∈ xs, p c = true) (hr : ∀ c ∈ rest.head?, p c = false) :
    (xs ++ rest).takeWhile p = xs := by
  rw [List.takeWhile_append_of_pos hx]
  cases rest <;> simp_all

theorem dropWhile_append_stop (hx : ∀ c ∈ xs, p c = true) (hr : ∀ c ∈ rest.head?, p c = false) :
    (xs ++ rest).dropWhile p = rest := by
  rw [List.dropWhile_append_of_pos hx]
  cases rest <;> simp_all

end

theorem ne_of_notMem {x : Char} {cs : List Char} (h : x ∉ cs) : ∀ c ∈ cs, (c != x) = true :=
  fun c hc => by simpa using fun hx : c = x => h (hx ▸ hc)

/-- A comment is one gap, up to the break of its line. -/
theorem piece_comment {body rest : List Char} (hb : '\n' ∉ body)
    (hr : ∀ c ∈ rest.head?, c = '\n') :
    piece '/' ('/' :: (body ++ rest)) = .gap ('/' :: '/' :: body) rest := by
  have hr' : ∀ c ∈ rest.head?, (c != '\n') = false := fun c hc => by simp [hr c hc]
  rw [piece_slash, slashPiece, takeWhile_append_stop (ne_of_notMem hb) hr',
    dropWhile_append_stop (ne_of_notMem hb) hr']

/-- **Layout is skipped**; it only counts lines. -/
theorem Trivia.scanFrom_append {last : Bool} {gap : List Char} (hg : Trivia last gap)
    {rest : List Char} (hl : last = true → rest = []) (line : Nat) :
    scanFrom line (gap ++ rest) = scanFrom (line + lineBreaks gap) rest := by
  induction hg generalizing line with
  | nil => rfl
  | @space c cs hc _ ih =>
    rw [List.cons_append, scanFrom_gap (piece_of_isSpace hc _), ih, lineBreaks_cons c cs,
      Nat.add_assoc]
  | @comment body cs hb _ ih =>
    have hbreaks : lineBreaks ('/' :: '/' :: (body ++ '\n' :: cs)) =
        lineBreaks ('/' :: '/' :: body) + lineBreaks ['\n'] + lineBreaks cs := by
      rw [Nat.add_assoc, ← lineBreaks_cons, ← lineBreaks_append]
      rfl
    have hp : piece '/' ('/' :: (body ++ '\n' :: (cs ++ rest))) =
        .gap ('/' :: '/' :: body) ('\n' :: (cs ++ rest)) := piece_comment hb (by simp)
    simp only [List.cons_append, List.append_assoc]
    rw [scanFrom_gap hp, scanFrom_gap (piece_of_isSpace rfl _), ih, hbreaks]
    simp only [Nat.add_assoc]
  | @lastComment body h hb =>
    obtain rfl := hl h
    have hp := @piece_comment body [] hb (by simp)
    rw [List.append_nil] at hp ⊢
    exact scanFrom_gap hp

/-! ## Scanning a token -/

theorem piece_of_singleMark {c : Char} {kind : TokenKind} (h : singleMark? c = some kind)
    (cs : List Char) : piece c cs = .token kind [c] cs := by
  unfold singleMark? at h
  split at h <;> cases h <;> rfl

theorem piece_of_equalMark {c : Char} {long short : TokenKind}
    (h : equalMark? c = some (long, short)) (cs : List Char) :
    piece c cs = equalPiece c long short cs := by
  unfold equalMark? at h
  split at h <;> cases h <;> rfl

theorem piece_of_doubleMark {c : Char} {kind : TokenKind} (h : doubleMark? c = some kind)
    (cs : List Char) : piece c cs = doublePiece c kind cs := by
  unfold doubleMark? at h
  split at h <;> cases h <;> rfl

theorem stringPiece_append {contents : List Char} (h : '"' ∉ contents) (rest : List Char) :
    stringPiece (contents ++ '"' :: rest) =
      .token (.string (String.ofList contents)) ('"' :: (contents ++ ['"'])) rest := by
  have hr : ∀ c ∈ ('"' :: rest).head?, (c != '"') = false := by simp
  rw [stringPiece, takeWhile_append_stop (ne_of_notMem h) hr,
    dropWhile_append_stop (ne_of_notMem h) hr]
  rfl

theorem numberPiece_whole {ds rest : List Char} (hds : ∀ c ∈ ds, c.isDigit = true)
    (hr : ∀ c ∈ rest.head?, isSpace c = true) :
    numberPiece (ds ++ rest) = .token (.number (.ofDigits ds [])) ds rest := by
  have hr' : ∀ c ∈ rest.head?, c.isDigit = false := fun c hc => isDigit_of_isSpace (hr c hc)
  rw [numberPiece, takeWhile_append_stop hds hr', dropWhile_append_stop hds hr']
  split
  · exact absurd (hr '.' rfl) (by decide)
  · rfl

theorem numberPiece_fraction {ds es rest : List Char} {e : Char}
    (hds : ∀ c ∈ ds, c.isDigit = true) (hes : ∀ c ∈ e :: es, c.isDigit = true)
    (hr : ∀ c ∈ rest.head?, isSpace c = true) :
    numberPiece (ds ++ '.' :: e :: (es ++ rest)) =
      .token (.number (.ofDigits ds (e :: es))) (ds ++ '.' :: e :: es) rest := by
  have hpoint : ∀ c ∈ ('.' :: e :: (es ++ rest)).head?, c.isDigit = false := by simp
  have hr' : ∀ c ∈ rest.head?, c.isDigit = false := fun c hc => isDigit_of_isSpace (hr c hc)
  rw [numberPiece, takeWhile_append_stop hds hpoint, dropWhile_append_stop hds hpoint]
  have htake := takeWhile_append_stop hes hr'
  have hdrop := dropWhile_append_stop hes hr'
  rw [List.cons_append] at htake hdrop
  simp only [hes e (.head es), if_true, htake, hdrop]

theorem wordPiece_append {word rest : List Char} (hw : ∀ c ∈ word, isWordChar c = true)
    (hr : ∀ c ∈ rest.head?, isSpace c = true) :
    wordPiece (word ++ rest) = .token (.ofWord (String.ofList word)) word rest := by
  have hr' : ∀ c ∈ rest.head?, isWordChar c = false :=
    fun c hc => isWordChar_of_isSpace (hr c hc)
  rw [wordPiece, takeWhile_append_stop hw hr', dropWhile_append_stop hw hr']

/-- **A token in front of white space** is the piece that stands there, whole and by itself. -/
theorem Lexeme.piece_append {kind : TokenKind} {c : Char} {text : List Char}
    (hl : Lexeme kind (c :: text)) {rest : List Char} (hr : ∀ d ∈ rest.head?, isSpace d = true) :
    piece c (text ++ rest) = .token kind (c :: text) rest := by
  cases hl with
  | single h => exact piece_of_singleMark h rest
  | long h => exact piece_of_equalMark h _
  | short h =>
    rw [List.nil_append, piece_of_equalMark h, equalPiece]
    rintro cs rfl
    exact absurd (hr '=' rfl) (by decide)
  | double h => rw [piece_of_doubleMark h]; simp [doublePiece]
  | slash =>
    rw [List.nil_append, piece_slash, slashPiece]
    rintro cs rfl
    exact absurd (hr '/' rfl) (by decide)
  | string h => rw [piece_quote, List.append_assoc]; exact stringPiece_append h rest
  | whole hd hds =>
    rw [piece_of_isDigit hd]
    exact numberPiece_whole (List.forall_mem_cons.2 ⟨hd, hds⟩) hr
  | @fraction _ ds e es hd hds he hes =>
    rw [piece_of_isDigit hd, List.append_assoc]
    exact numberPiece_fraction (List.forall_mem_cons.2 ⟨hd, hds⟩)
      (List.forall_mem_cons.2 ⟨he, hes⟩) hr
  | word hc hcs =>
    rw [piece_of_isWordStart hc]
    exact wordPiece_append (List.forall_mem_cons.2 ⟨isWordChar_of_isWordStart hc, hcs⟩) hr

theorem Lexeme.ne_nil {kind : TokenKind} {text : List Char} (h : Lexeme kind text) :
    text ≠ [] := by
  cases h <;> simp

/-- What the text of a token is, for the kinds that have more than one. -/
def TokenKind.Spelt : TokenKind → List Char → Prop
  | .identifier, text => ∀ c ∈ text, isWordChar c
  | .number n, _ => ∃ whole fraction, n = .ofDigits whole fraction
  | .endOfFile, _ => False
  | _, _ => True

theorem Lexeme.spelt {kind : TokenKind} {text : List Char} (h : Lexeme kind text) :
    kind.Spelt text := by
  cases h with
  | single h => unfold singleMark? at h; split at h <;> cases h <;> trivial
  | long h => unfold equalMark? at h; split at h <;> cases h <;> trivial
  | short h => unfold equalMark? at h; split at h <;> cases h <;> trivial
  | double h => unfold doubleMark? at h; split at h <;> cases h <;> trivial
  | slash | string => trivial
  | whole | fraction => exact ⟨_, _, rfl⟩
  | @word c cs hc hcs =>
    have hword : ∀ d ∈ c :: cs, isWordChar d :=
      List.forall_mem_cons.2 ⟨isWordChar_of_isWordStart hc, hcs⟩
    unfold TokenKind.ofWord TokenKind.keyword?
    split <;> first | exact hword | trivial

theorem Lexeme.kind_ne_endOfFile {kind : TokenKind} {text : List Char} (h : Lexeme kind text) :
    kind ≠ .endOfFile := by
  rintro rfl
  exact h.spelt

end Scriptling
