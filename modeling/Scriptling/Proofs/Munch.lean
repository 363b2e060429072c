/-
  Munch — the token at a place of a text is the longest one that stands there.

  * `keywords`: the sixteen keywords with their kinds; `TokenKind.Tells`: what the kind of a token
    says of its text;
  * `Longest`: a token at the front of a text that is as long as any that stands there;
  * `piece_eq_token_iff`, `piece_eq_fault_iff`: which piece is found, read off the lexical grammar;
  * `Comes`: the places at which scanning looks for the next piece;
  * `scan_munches`: the longest token is emitted where tokens stand, and an error reported where a
    fault is.
-/
import Scriptling.Proofs.Numerals
import Scriptling.Proofs.Placement

namespace Scriptling

/-! ## Keywords -/

/-- The keywords. -/
def keywords : List (String × TokenKind) :=
  [("break", .break), ("continue", .continue), ("else", .else), ("false", .false), ("fn", .fn),
    ("for", .for), ("if", .if), ("let", .let), ("null", .null), ("print", .print),
    ("return", .return), ("struct", .struct), ("super", .super), ("this", .this),
    ("true", .true), ("while", .while)]

/-- The shapes of tokens, which are told apart by their first character. -/
inductive TokenShape where
  | mark | string | number | word
deriving DecidableEq

/-- The shape of the tokens of a kind; names and keywords are words. -/
def TokenKind.shape : TokenKind → TokenShape
  | .string _ => .string
  | .number _ => .number
  | .identifier | .break | .continue | .else | .false | .fn | .for | .if | .let | .null | .print
  | .return | .struct | .super | .this | .true | .while => .word
  | _ => .mark

theorem of_mem_keywords : ∀ p ∈ keywords, p.2.shape = .word ∧ p.2 ≠ .identifier ∧
    p.1.toList.head?.any isWordStart = true ∧ TokenKind.keyword? p.1 = some p.2 := by
  decide +kernel

theorem keywords_distinct : ∀ p ∈ keywords, ∀ q ∈ keywords, p.2 = q.2 → p.1 = q.1 := by
  decide +kernel

theorem keyword?_eq_some_iff {word : String} {kind : TokenKind} :
    TokenKind.keyword? word = some kind ↔ (word, kind) ∈ keywords := by
  refine ⟨fun h => ?_, fun h => (of_mem_keywords _ h).2.2.2⟩
  unfold TokenKind.keyword? at h
  split at h <;> cases h <;> simp [keywords]

/-! ## Kinds and texts -/

/-- **What the kind of a token says of its text**: a string has the text between its quotes, of
    which there are only two; a number has the value that its text is read as; and a word is a
    keyword if the whole of it is one, and else a name. -/
structure TokenKind.Tells (kind : TokenKind) (text : List Char) : Prop where
  string : ∀ contents, kind = .string contents →
    text = '"' :: (contents.toList ++ ['"']) ∧ '"' ∉ contents.toList
  number : ∀ value, kind = .number value → Number.read (.ofList text) = some value
  keyword : ∀ p ∈ keywords, kind = p.2 ↔ String.ofList text = p.1
  name : kind = .identifier ↔
    (∃ c ∈ text.head?, isWordStart c) ∧ ∀ p ∈ keywords, String.ofList text ≠ p.1

section
variable {kind : TokenKind} {c : Char} {cs : List Char}

/-- What does not start as words do is no word. -/
theorem tells_of_shape (hshape : kind.shape ≠ .word) (hc : isWordStart c = false)
    (string : ∀ contents, kind = .string contents →
      c :: cs = '"' :: (contents.toList ++ ['"']) ∧ '"' ∉ contents.toList)
    (number : ∀ value, kind = .number value → Number.read (.ofList (c :: cs)) = some value) :
    kind.Tells (c :: cs) where
  string := string
  number := number
  keyword p hp := by
    obtain ⟨hp, -, hword, -⟩ := of_mem_keywords p hp
    refine ⟨fun h => absurd (h ▸ hp) hshape, fun h => ?_⟩
    rw [← h, String.toList_ofList, List.head?_cons, Option.any_some, hc] at hword
    cases hword
  name := by
    refine ⟨?_, fun ⟨⟨d, hd, hword⟩, _⟩ => ?_⟩
    · rintro rfl
      exact absurd rfl hshape
    · cases hd
      rw [hc] at hword
      cases hword

theorem tells_mark (hshape : kind.shape = .mark) (hc : isWordStart c = false) :
    kind.Tells (c :: cs) := by
  refine tells_of_shape ?_ hc ?_ ?_
  · rw [hshape]
    nofun
  · rintro contents rfl
    cases hshape
  · rintro value rfl
    cases hshape

theorem tells_number {value : Number} (hc : c.isDigit = true)
    (hread : Number.read (.ofList (c :: cs)) = some value) :
    (TokenKind.number value).Tells (c :: cs) := by
  have hword : isWordStart c = false :=
    Bool.eq_false_iff.2 fun hw => by simp [isDigit_of_isWordStart hw] at hc
  refine tells_of_shape nofun hword nofun fun _ h => ?_
  cases h
  exact hread

end

theorem tells_ofWord {word : List Char} (h : ∃ c ∈ word.head?, isWordStart c = true) :
    (TokenKind.ofWord (.ofList word)).Tells word := by
  have key {p} (hp : p ∈ keywords) : TokenKind.keyword? p.1 = some p.2 :=
    keyword?_eq_some_iff.2 hp
  rcases hword : TokenKind.keyword? (.ofList word) with _ | kind
  · have hk : TokenKind.ofWord (.ofList word) = .identifier := by rw [TokenKind.ofWord, hword]; rfl
    have hnone : ∀ p ∈ keywords, String.ofList word ≠ p.1 := by
      intro p hp he
      rw [he, key hp] at hword
      cases hword
    rw [hk]
    refine ⟨nofun, nofun, fun p hp => ?_, fun _ => ⟨h, hnone⟩, fun _ => rfl⟩
    exact ⟨fun he => absurd he.symm (of_mem_keywords p hp).2.1, fun he => absurd he (hnone p hp)⟩
  · have hk : TokenKind.ofWord (.ofList word) = kind := by rw [TokenKind.ofWord, hword]; rfl
    have hmem := keyword?_eq_some_iff.1 hword
    obtain ⟨hshape, hname, -, -⟩ := of_mem_keywords _ hmem
    rw [hk]
    refine ⟨?_, ?_, fun p hp => ⟨fun he => ?_, fun he => ?_⟩, fun he => absurd he hname,
      fun he => absurd rfl (he.2 _ hmem)⟩
    · rintro contents rfl
      cases hshape
    · rintro value rfl
      cases hshape
    · exact keywords_distinct _ hmem p hp he
    · rw [he, key hp] at hword
      exact (Option.some.inj hword).symm

/-- **The kind of a token fits its text.** -/
theorem Lexeme.tells {kind : TokenKind} {text : List Char} (h : Lexeme kind text) :
    kind.Tells text := by
  cases h with
  | single h => unfold singleMark? at h; split at h <;> cases h <;> exact tells_mark rfl rfl
  | long h => unfold equalMark? at h; split at h <;> cases h <;> exact tells_mark rfl rfl
  | short h => unfold equalMark? at h; split at h <;> cases h <;> exact tells_mark rfl rfl
  | double h => unfold doubleMark? at h; split at h <;> cases h <;> exact tells_mark rfl rfl
  | slash => exact tells_mark rfl rfl
  | string h =>
    refine tells_of_shape nofun rfl (fun contents hc => ?_) nofun
    cases hc
    exact ⟨by rw [String.toList_ofList], by rwa [String.toList_ofList]⟩
  | whole hd hds =>
    exact tells_number hd (read_decimal (List.forall_mem_cons.2 ⟨hd, hds⟩)
      (List.forall_mem_nil _) nofun).1
  | fraction hd hds he hes =>
    exact tells_number hd (read_decimal (List.forall_mem_cons.2 ⟨hd, hds⟩)
      (List.forall_mem_cons.2 ⟨he, hes⟩) nofun).2
  | word hc _ => exact tells_ofWord ⟨_, rfl, hc⟩

/-! ## The longest token -/

/-- **The longest token at the front of a text**: none that stands there is longer. -/
structure Longest (kind : TokenKind) (lexeme text : List Char) : Prop where
  isLexeme : Lexeme kind lexeme
  front : lexeme <+: text
  longest : ∀ kind' lexeme', Lexeme kind' lexeme' → lexeme' <+: text →
    lexeme'.length ≤ lexeme.length

theorem length_le_takeWhile {p : Char → Bool} {xs : List Char} (h : ∀ c ∈ xs, p c = true)
    (rest : List Char) : xs.length ≤ ((xs ++ rest).takeWhile p).length := by
  rw [List.takeWhile_append_of_pos h, List.length_append]
  exact Nat.le_add_right ..

/-- Where digits stand, a number is found that has all of them. -/
theorem numberPiece_digits {ds : List Char} (hds : ∀ c ∈ ds, c.isDigit = true) (rest : List Char) :
    ∃ kind text rest', numberPiece (ds ++ rest) = .token kind text rest' ∧
      ds.length ≤ text.length := by
  have hle := length_le_takeWhile hds rest
  unfold numberPiece
  split
  · split
    · exact ⟨_, _, _, rfl, hle.trans (by simp)⟩
    · exact ⟨_, _, _, rfl, hle⟩
  · exact ⟨_, _, _, rfl, hle⟩

/-- Where a decimal with a fraction stands, a number is found that has all of it. -/
theorem numberPiece_decimal {ds es : List Char} {e : Char} (hds : ∀ c ∈ ds, c.isDigit = true)
    (hes : ∀ c ∈ e :: es, c.isDigit = true) (rest : List Char) :
    ∃ kind text rest', numberPiece (ds ++ '.' :: e :: es ++ rest) = .token kind text rest' ∧
      (ds ++ '.' :: e :: es).length ≤ text.length := by
  have hpoint : ∀ c ∈ ('.' :: e :: (es ++ rest)).head?, c.isDigit = false := by simp
  have hle := length_le_takeWhile hes rest
  rw [List.append_assoc, numberPiece, List.cons_append, List.cons_append,
    takeWhile_append_stop hds hpoint, dropWhile_append_stop hds hpoint]
  simp only [hes e (.head es), if_true]
  refine ⟨_, _, _, rfl, ?_⟩
  simpa using hle

/-- **Where a token stands, one is found that is at least as long**, unless a comment starts
    there. -/
theorem Lexeme.munched {kind' : TokenKind} {c : Char} {cs lexeme' rest' : List Char}
    (h : Lexeme kind' lexeme') (hsplit : c :: cs = lexeme' ++ rest')
    (hcomment : ¬ ['/', '/'] <+: c :: cs) :
    ∃ kind lexeme rest, piece c cs = .token kind lexeme rest ∧
      lexeme'.length ≤ lexeme.length := by
  cases h with
  | single h =>
    cases hsplit
    exact ⟨_, _, _, piece_of_singleMark h _, Nat.le_refl _⟩
  | long h =>
    cases hsplit
    exact ⟨_, _, _, piece_of_equalMark h _, Nat.le_refl _⟩
  | short h =>
    cases hsplit
    rw [piece_of_equalMark h]
    unfold equalPiece
    split
    · exact ⟨_, _, _, rfl, by simp⟩
    · exact ⟨_, _, _, rfl, Nat.le_refl _⟩
  | double h =>
    cases hsplit
    rw [piece_of_doubleMark h]
    exact ⟨_, _, _, if_pos rfl, Nat.le_refl _⟩
  | slash =>
    cases hsplit
    rw [piece_slash, slashPiece]
    · exact ⟨_, _, _, rfl, Nat.le_refl _⟩
    · rintro cs rfl
      exact hcomment (List.prefix_append ['/', '/'] cs)
  | string h =>
    cases hsplit
    rw [piece_quote, List.append_eq, List.append_assoc]
    exact ⟨_, _, _, stringPiece_append h rest', Nat.le_refl _⟩
  | whole hd hds =>
    cases hsplit
    rw [piece_of_isDigit hd]
    exact numberPiece_digits (List.forall_mem_cons.2 ⟨hd, hds⟩) rest'
  | fraction hd hds he hes =>
    cases hsplit
    rw [piece_of_isDigit hd]
    exact numberPiece_decimal (List.forall_mem_cons.2 ⟨hd, hds⟩)
      (List.forall_mem_cons.2 ⟨he, hes⟩) rest'
  | word hc hcs =>
    cases hsplit
    rw [piece_of_isWordStart hc]
    refine ⟨_, _, _, rfl, length_le_takeWhile ?_ rest'⟩
    exact List.forall_mem_cons.2 ⟨isWordChar_of_isWordStart hc, hcs⟩

/-- A text is a token of one kind only. -/
theorem Lexeme.kind_eq {kind kind' : TokenKind} {text : List Char} (h : Lexeme kind text)
    (h' : Lexeme kind' text) : kind = kind' := by
  cases text with
  | nil => exact absurd rfl h.ne_nil
  | cons c cs =>
    have hpiece : piece c (cs ++ []) = .token kind (c :: cs) [] := h.piece_append (by simp)
    rw [h'.piece_append (by simp)] at hpiece
    cases hpiece
    rfl

/-- **The token that is found is the longest one**, and it is found unless a comment starts. -/
theorem piece_eq_token_iff {kind : TokenKind} {c : Char} {cs lexeme rest : List Char} :
    piece c cs = .token kind lexeme rest ↔
      c :: cs = lexeme ++ rest ∧ Longest kind lexeme (c :: cs) ∧ ¬ ['/', '/'] <+: c :: cs := by
  constructor
  · intro h
    have hsplit : c :: cs = lexeme ++ rest := by
      rw [← piece_text_append c cs, h]
      rfl
    have hcomment : ¬ ['/', '/'] <+: c :: cs := by
      rintro ⟨cs', hcs⟩
      cases hcs
      rw [piece_slash, List.append_eq] at h
      cases h
    have hsound := piece_sound c cs
    rw [h] at hsound
    cases hsound with
    | token hlexeme =>
    refine ⟨hsplit, ⟨hlexeme, ⟨rest, hsplit.symm⟩, ?_⟩, hcomment⟩
    rintro kind' lexeme' hlexeme' ⟨rest', hsplit'⟩
    obtain ⟨_, _, _, hpiece, hle⟩ := hlexeme'.munched hsplit'.symm hcomment
    rw [h] at hpiece
    cases hpiece
    exact hle
  · rintro ⟨hsplit, hlongest, hcomment⟩
    obtain ⟨kind', lexeme', rest', hpiece, hle⟩ := hlongest.isLexeme.munched hsplit hcomment
    have hsound := piece_sound c cs
    have hsplit' := piece_text_append c cs
    rw [hpiece] at hsound hsplit'
    cases hsound with
    | token hlexeme' =>
    obtain ⟨rfl, rfl⟩ : lexeme' = lexeme ∧ rest' = rest := by
      refine List.append_inj (hsplit'.trans hsplit) (Nat.le_antisymm ?_ hle)
      exact hlongest.longest _ _ hlexeme' ⟨rest', hsplit'⟩
    rw [hpiece, hlexeme'.kind_eq hlongest.isLexeme]

/-- Where a token stands, there is a longest one. -/
theorem exists_longest {kind' : TokenKind} {lexeme' text : List Char} (h : Lexeme kind' lexeme')
    (hfront : lexeme' <+: text) (hcomment : ¬ ['/', '/'] <+: text) :
    ∃ kind lexeme, Longest kind lexeme text := by
  obtain ⟨rest', hsplit⟩ := hfront
  cases text with
  | nil => exact absurd (List.append_eq_nil_iff.1 hsplit).1 h.ne_nil
  | cons c cs =>
    obtain ⟨kind, lexeme, rest, hpiece, -⟩ := h.munched hsplit.symm hcomment
    exact ⟨kind, lexeme, (piece_eq_token_iff.1 hpiece).2.1⟩

/-! ## Faults -/

/-- A character that starts no token and is no white space. -/
theorem piece_of_stray {c : Char} (hlexeme : ∀ kind cs, ¬ Lexeme kind (c :: cs))
    (hspace : isSpace c = false) (cs : List Char) : piece c cs = .fault (.stray c) [c] cs := by
  have hsound := piece_sound c cs
  have hsplit := piece_text_append c cs
  generalize piece c cs = found at hsound hsplit
  cases hsound with
  | space h =>
    cases hsplit
    simp [h] at hspace
  | comment =>
    cases hsplit
    exact absurd .slash (hlexeme _ [])
  | @token kind text rest h =>
    cases text with
    | nil => exact absurd rfl h.ne_nil
    | cons d ds =>
      cases hsplit
      exact absurd h (hlexeme kind ds)
  | fault h =>
    cases h with
    | lone h =>
      cases hsplit
      exact absurd (.double h) (hlexeme _ _)
    | openString =>
      cases hsplit
      exact absurd (.string List.not_mem_nil) (hlexeme _ _)
    | stray =>
      cases hsplit
      rfl

/-- **A fault is found exactly where there is one.** -/
theorem piece_eq_fault_iff {fault : LexicalFault} {c : Char} {cs text rest : List Char} :
    piece c cs = .fault fault text rest ↔ c :: cs = text ++ rest ∧ fault.Noticed text rest := by
  constructor
  · intro h
    have hsound := piece_sound c cs
    have hsplit := piece_text_append c cs
    rw [h] at hsound hsplit
    cases hsound with
    | fault hnoticed => exact ⟨hsplit.symm, hnoticed⟩
  · rintro ⟨hsplit, hnoticed⟩
    cases hnoticed with
    | lone hmark hrest =>
      cases hsplit
      rw [piece_of_doubleMark hmark, List.append_eq, List.nil_append]
      cases rest with
      | nil => rfl
      | cons d ds => exact if_neg fun hd => hrest (congrArg some hd)
    | @openString contents hquote =>
      cases hsplit
      have htake := List.takeWhile_eq_self_iff.2 (ne_of_notMem hquote)
      have hdrop := List.dropWhile_eq_nil_iff.2 (ne_of_notMem hquote)
      rw [piece_quote, List.append_eq, List.append_nil, stringPiece, htake, hdrop]
    | stray hlexeme hspace =>
      cases hsplit
      exact piece_of_stray hlexeme hspace rest

/-! ## The places that scanning comes to -/

/-- **Scanning comes to a place of the text** at which it looks for the next piece: these tokens
    have been emitted, this is the line, and this text is left. -/
inductive Comes (source : String) : List Token → Nat → List Char → Prop
  | start : Comes source [] 1 source.toList
  | gap {ts line c cs text rest} : Comes source ts line (c :: cs) → piece c cs = .gap text rest →
      Comes source ts (line + lineBreaks text) rest
  | token {ts line c cs kind text rest} : Comes source ts line (c :: cs) →
      piece c cs = .token kind text rest →
      Comes source (ts ++ [⟨kind, .ofList text, line + lineBreaks text⟩])
        (line + lineBreaks text) rest

variable {source : String} {ts : List Token} {line : Nat} {text : List Char}

/-- What is emitted in the end is what has been emitted, and what is scanned from there. -/
theorem Comes.scan_eq (h : Comes source ts line text) :
    scan source = ⟨ts ++ (scanFrom line text).tokens, (scanFrom line text).error⟩ := by
  induction h with
  | start => exact Scriptling.scan_eq source
  | gap _ hpiece ih => rwa [scanFrom_gap hpiece] at ih
  | token _ hpiece ih =>
    rw [scanFrom_token hpiece] at ih
    rw [ih, List.append_assoc]
    rfl

/-- An error is a fault at a place that scanning comes to. -/
theorem Comes.of_error {error : Error} (h : Comes source ts line text)
    (herror : (scanFrom line text).error = some error) :
    ∃ ts line text rest fault, Comes source ts line (text ++ rest) ∧
      LexicalFault.Noticed fault text rest ∧ error = .lexical (line + lineBreaks text) fault := by
  induction hlen : text.length using Nat.strongRecOn generalizing ts line text with
  | ind n ih =>
  subst hlen
  cases text with
  | nil =>
    rw [scanFrom] at herror
    cases herror
  | cons c cs =>
    have hlt := length_piece_rest_lt c cs
    rcases hpiece : piece c cs with ⟨text, rest⟩ | ⟨kind, text, rest⟩ | ⟨fault, text, rest⟩
    all_goals rw [hpiece] at hlt
    · rw [scanFrom_gap hpiece] at herror
      exact ih _ hlt (h.gap hpiece) herror rfl
    · rw [scanFrom_token hpiece] at herror
      exact ih _ hlt (h.token hpiece) herror rfl
    · obtain ⟨hsplit, hnoticed⟩ := piece_eq_fault_iff.1 hpiece
      rw [scanFrom_fault hpiece] at herror
      cases herror
      exact ⟨ts, line, text, rest, fault, hsplit ▸ h, hnoticed, rfl⟩

/-- At a comment, scanning goes on behind it. -/
theorem Comes.comment (h : Comes source ts line text) (hcomment : ['/', '/'] <+: text) :
    ∃ body rest, text = '/' :: '/' :: (body ++ rest) ∧ '\n' ∉ body ∧
      (∀ c ∈ rest.head?, c = '\n') ∧ Comes source ts line rest := by
  obtain ⟨cs, rfl⟩ := hcomment
  have hbody : '\n' ∉ cs.takeWhile (· != '\n') := notMem_takeWhile
  have hbreaks : lineBreaks ('/' :: '/' :: cs.takeWhile (· != '\n')) = 0 := by
    rw [lineBreaks, List.count_eq_zero]
    simpa using hbody
  have hnext := h.gap (show piece '/' ('/' :: cs) = .gap _ _ from rfl)
  rw [hbreaks] at hnext
  refine ⟨_, _, ?_, hbody, head?_dropWhile, hnext⟩
  rw [List.takeWhile_append_dropWhile]
  rfl

theorem head?_toList_append {a : String} {c : Char} (h : a.toList.head? = some c) (b : String) :
    (a ++ b).toList.head? = some c := by
  rw [String.toList_append, List.head?_append, h]
  rfl

/-- No fault that is noticed is an invalid number. -/
theorem LexicalFault.Noticed.detail_ne_invalidNumber {fault : LexicalFault} {cs rest : List Char}
    (h : fault.Noticed cs rest) (text : String) :
    fault.detail ≠ "Invalid number '" ++ text ++ "'." := by
  have hU : fault.detail.toList.head? = some 'U' := by
    cases h with
    | lone => exact head?_toList_append (head?_toList_append (by decide +kernel) _) _
    | openString => decide +kernel
    | stray => exact head?_toList_append (by decide +kernel) _
  intro h
  rw [h, head?_toList_append (head?_toList_append (c := 'I') (by decide +kernel) _)] at hU
  cases hU

/-- **Maximal munch.**  Wherever scanning comes to in a text, if a token stands there, and not a
    comment, the token that is emitted is the longest one that stands there, of the kind that its
    text tells; a comment is skipped.  An error is reported exactly when scanning comes to a fault,
    and it is never that a number is invalid. -/
theorem scan_munches (source : String) :
    (∀ ts line text, Comes source ts line text → ¬ ['/', '/'] <+: text →
      (∃ kind lexeme, Lexeme kind lexeme ∧ lexeme <+: text) →
      ∃ kind lexeme later error, Longest kind lexeme text ∧ kind.Tells lexeme ∧
        scan source = ⟨ts ++ ⟨kind, .ofList lexeme, line + lineBreaks lexeme⟩ :: later, error⟩) ∧
    (∀ ts line text, Comes source ts line text → ['/', '/'] <+: text →
      ∃ body rest, text = '/' :: '/' :: (body ++ rest) ∧ '\n' ∉ body ∧
        (∀ c ∈ rest.head?, c = '\n') ∧ Comes source ts line rest) ∧
    (∀ error, (scan source).error = some error ↔
      ∃ ts line text rest fault, Comes source ts line (text ++ rest) ∧
        LexicalFault.Noticed fault text rest ∧ error = .lexical (line + lineBreaks text) fault) ∧
    ∀ error text, (scan source).error = some error →
      error.detail ≠ "Invalid number '" ++ text ++ "'." := by
  have reported {error} (h : (scan source).error = some error) :=
    Comes.start.of_error ((congrArg Scan.error (scan_eq source)).symm.trans h)
  refine ⟨?_, fun _ _ _ => Comes.comment, fun error => ⟨reported, ?_⟩, ?_⟩
  · rintro ts line text hcomes hcomment ⟨kind', lexeme', hlexeme', hfront⟩
    obtain ⟨kind, lexeme, hlongest⟩ := exists_longest hlexeme' hfront hcomment
    obtain ⟨rest, rfl⟩ := hlongest.front
    obtain ⟨c, cs, hcs⟩ := List.exists_cons_of_ne_nil
      (List.append_ne_nil_of_left_ne_nil hlongest.isLexeme.ne_nil rest)
    rw [hcs] at hcomes hlongest hcomment
    have hpiece := piece_eq_token_iff.2 ⟨hcs.symm, hlongest, hcomment⟩
    have hscan := (hcomes.token hpiece).scan_eq
    rw [List.append_assoc] at hscan
    exact ⟨kind, lexeme, _, _, hcs ▸ hlongest, hlongest.isLexeme.tells, hscan⟩
  · rintro ⟨ts, line, text, rest, fault, hcomes, hnoticed, rfl⟩
    obtain ⟨c, cs, hcs⟩ := List.exists_cons_of_ne_nil
      (List.append_ne_nil_of_left_ne_nil hnoticed.ne_nil rest)
    have hpiece := piece_eq_fault_iff.2 ⟨hcs.symm, hnoticed⟩
    rw [hcomes.scan_eq, hcs, scanFrom_fault hpiece]
  · intro error text herror
    obtain ⟨_, _, _, _, _, -, hnoticed, rfl⟩ := reported herror
    exact hnoticed.detail_ne_invalidNumber text

example : (scan "lets>=1.5.x//y").tokens.map Token.lexeme =
    ["lets", ">=", "1.5", ".", "x", ""] := by
  decide +kernel

end Scriptling
