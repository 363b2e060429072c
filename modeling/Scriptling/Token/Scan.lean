/-
  Scanning — from program text to tokens.

  A scanner goes through the bytes of a text, where a character can take several of them, and cuts
  the texts of its tokens out of the text.  An index outside of the text, or a slice that does not
  end between two characters, has no outcome at all.

  * `Scanner.scanToken`: a step of the scanner: white space, a comment, a token or a fault;
  * `Scanner.next`: the next token, up to the end of the text or its first fault, and then none;
  * `scan`: all that a scanner of the text hands out;
  * `tokens`: the same, for callers to whom a fault is a failure.
-/
import Scriptling.Error
import Scriptling.Token

namespace Scriptling

/-! ## Characters -/

/-- White space between tokens. -/
def isSpace (c : Char) : Bool := c = ' ' || c = '\t' || c = '\r' || c = '\n'

/-- Words start with a letter or an underscore … -/
def isWordStart (c : Char) : Bool := c.isAlpha || c = '_'

/-- … and go on with letters, digits and underscores. -/
def isWordChar (c : Char) : Bool := c.isAlphanum || c = '_'

/-- Marks that are a token whatever follows them. -/
def singleMark? : Char → Option TokenKind
  | '(' => some .leftParen
  | ')' => some .rightParen
  | '{' => some .leftBrace
  | '}' => some .rightBrace
  | '[' => some .leftBracket
  | ']' => some .rightBracket
  | ',' => some .comma
  | '.' => some .dot
  | '-' => some .minus
  | '+' => some .plus
  | ';' => some .semicolon
  | '*' => some .star
  | '?' => some .question
  | ':' => some .colon
  | _ => none

/-- Marks that `=` extends: the kinds with it and without it. -/
def equalMark? : Char → Option (TokenKind × TokenKind)
  | '!' => some (.bangEqual, .bang)
  | '=' => some (.equalEqual, .equal)
  | '<' => some (.lessEqual, .less)
  | '>' => some (.greaterEqual, .greater)
  | _ => none

/-- Marks that stand only in pairs. -/
def doubleMark? : Char → Option TokenKind
  | '&' => some .and
  | '|' => some .or
  | _ => none

/-! ## Scanners -/

/-- Where a scanner stands in a text; all places are counted in bytes. -/
structure Scanner where
  source : String
  /-- The place where the current piece of the text starts. -/
  start : Nat := 0
  /-- The place behind the last byte that has been passed. -/
  curr : Nat := 0
  line : Nat := 1
  /-- The kind of a token that has been read and is to be handed out. -/
  pending : Option TokenKind := none
  /-- The end or a fault has been handed out. -/
  done : Bool := false

namespace Scanner

/-- The byte at a place, as the character with its number. -/
def byte (s : Scanner) (i : Nat) (h : i < s.source.utf8ByteSize) : Char :=
  .ofUInt8 (s.source.getUTF8Byte ⟨i⟩ h)

/-- The byte at a place, if there is one. -/
def byte? (s : Scanner) (i : Nat) : Option Char :=
  if h : i < s.source.utf8ByteSize then some (s.byte i h) else none

/-- All bytes have been passed. -/
def atEnd (s : Scanner) : Bool := s.source.utf8ByteSize ≤ s.curr

/-- The next byte; at the end it counts as zero. -/
def peek (s : Scanner) : Char := (s.byte? s.curr).getD '\x00'

/-- The byte after the next. -/
def peekNext (s : Scanner) : Char := (s.byte? (s.curr + 1)).getD '\x00'

/-- The text between two places, which have to lie between characters. -/
def slice? (s : Scanner) (i j : Nat) : Option String :=
  if h : i ≤ j ∧ String.Pos.Raw.IsValid s.source ⟨i⟩ ∧ String.Pos.Raw.IsValid s.source ⟨j⟩ then
    some (s.source.extract ⟨⟨i⟩, h.2.1⟩ ⟨⟨j⟩, h.2.2⟩)
  else none

/-- Passes bytes as long as they are of a class. -/
def passWhile (p : Char → Bool) (s : Scanner) : Scanner :=
  if h : s.curr < s.source.utf8ByteSize then
    if p (s.byte s.curr h) then passWhile p { s with curr := s.curr + 1 } else s
  else s
termination_by s.source.utf8ByteSize - s.curr

/-- Passes the contents of a string, and counts its line breaks. -/
def passString (s : Scanner) : Scanner :=
  if h : s.curr < s.source.utf8ByteSize then
    let c := s.byte s.curr h
    if c = '"' then s
    else passString { s with curr := s.curr + 1, line := s.line + (c == '\n').toNat }
  else s
termination_by s.source.utf8ByteSize - s.curr

/-- The first place with a byte, from a place on. -/
def find? (s : Scanner) (c : Char) (i : Nat) : Option Nat :=
  if h : i < s.source.utf8ByteSize then
    if s.byte i h = c then some i else s.find? c (i + 1)
  else none
termination_by s.source.utf8ByteSize - i

end Scanner

/-! ## Steps -/

/-- Computations of a scanner; there is no outcome if an index or a slice is out of place. -/
abbrev Scanning := ExceptT Error (StateT Scanner Option)

namespace Scanning

variable {α : Type}

/-- Passes the next byte, which has to be there. -/
def advance : Scanning Char := fun s =>
  (s.byte? s.curr).map fun c => (.ok c, { s with curr := s.curr + 1 })

/-- The text between two places. -/
def slice (i j : Nat) : Scanning String := fun s => (s.slice? i j).map fun text => (.ok text, s)

/-- Passes the rest of a line, but not the break after it. -/
def passLine : Scanning Unit := fun s =>
  if s.curr ≤ s.source.utf8ByteSize then
    some (.ok (), { s with curr := (s.find? '\n' s.curr).getD s.source.utf8ByteSize })
  else none

/-- Stops at a fault. -/
def fault (cause : LexicalFault) : Scanning α := do throw (.lexical (← get).line cause)

/-- Passes the next byte if it is the given one, and tells whether it was. -/
def accept (c : Char) : Scanning Bool := do
  let s ← get
  if !s.atEnd && s.peek == c then
    let _ ← advance
    return true
  else return false

/-- A token has been read. -/
def found (kind : TokenKind) : Scanning Unit := modify fun s => { s with pending := some kind }

/-- A string, behind its opening quote: all up to the next quote. -/
def string : Scanning TokenKind := do
  modify .passString
  if (← get).atEnd then fault .openString
  else
    let _ ← advance
    let s ← get
    let contents ← slice (s.start + 1) (s.curr - 1)
    return .string contents

/-- Digits, and if a digit follows a point, the point and more digits. -/
def digits : Scanning Unit := do
  modify (.passWhile Char.isDigit)
  let s ← get
  if s.peek = '.' && s.peekNext.isDigit then
    let _ ← advance
    modify (.passWhile Char.isDigit)

/-- A number, behind its first digit. -/
def number : Scanning TokenKind := do
  digits
  let s ← get
  let text ← slice s.start s.curr
  match Number.read text with
  | some value => return .number value
  | none => fault (.invalidNumber text)

/-- A keyword or a name, behind its first letter. -/
def word : Scanning TokenKind := do
  modify (.passWhile isWordChar)
  let s ← get
  let text ← slice s.start s.curr
  return .ofWord text

/-- What is read behind the first byte of a piece of the text. -/
def scanBehind (c : Char) : Scanning Unit := do
  if c = '\n' then modify fun s => { s with line := s.line + 1 }
  else if isSpace c then pure ()
  else if c = '/' then
    if ← accept '/' then passLine else found .slash
  else if c = '"' then found (← string)
  else if c.isDigit then found (← number)
  else if isWordStart c then found (← word)
  else match singleMark? c, equalMark? c, doubleMark? c with
    | some kind, _, _ => found kind
    | none, some (long, short), _ => found (if ← accept '=' then long else short)
    | none, none, some kind => if ← accept c then found kind else fault (.lone c)
    | none, none, none => do
      let s ← get
      let text ← slice s.start s.source.utf8ByteSize
      fault (.stray (text.toList.headD '?'))

/-- A step of the scanner: white space, a comment, a token or a fault. -/
def scanToken : Scanning Unit := do
  let c ← advance
  scanBehind c

end Scanning

/-! ## Progress -/

/-- The scanner has passed at least some more bytes of the same text. -/
structure Scanner.Ahead (n : Nat) (s s' : Scanner) : Prop where
  source : s'.source = s.source
  curr : s.curr + n ≤ s'.curr
  done : s'.done = s.done

namespace Scanner

variable {s s' : Scanner}

theorem Ahead.refl (s : Scanner) : s.Ahead 0 s := ⟨rfl, Nat.le_refl _, rfl⟩

theorem Ahead.trans {n m : Nat} {s'' : Scanner} (h : s.Ahead n s') (h' : s'.Ahead m s'') :
    s.Ahead n s'' where
  source := h'.source.trans h.source
  curr := by have := h.curr; have := h'.curr; omega
  done := h'.done.trans h.done

theorem ahead_passWhile (p : Char → Bool) (s : Scanner) : s.Ahead 0 (s.passWhile p) := by
  fun_induction passWhile p s with
  | case1 s h hp ih => exact ⟨ih.source, by have := ih.curr; dsimp only at this; omega, ih.done⟩
  | case2 | case3 => exact .refl _

theorem ahead_passString (s : Scanner) : s.Ahead 0 s.passString := by
  fun_induction passString s with
  | case1 | case3 => exact .refl _
  | case2 s h c hc ih => exact ⟨ih.source, by have := ih.curr; dsimp only at this; omega, ih.done⟩

theorem le_of_find? {c : Char} {i j : Nat} (h : s.find? c i = some j) : i ≤ j := by
  fun_induction find? s c i with
  | case1 => cases h; exact Nat.le_refl _
  | case2 i _ _ ih => exact Nat.le_of_lt (ih h)
  | case3 => cases h

end Scanner

namespace Scanning

variable {α β : Type}

/-- Whatever a computation comes to, it has passed at least some more bytes. -/
def Advances (n : Nat) (act : Scanning α) : Prop :=
  ∀ s r s', act s = some (r, s') → s.Ahead n s'

theorem bind_apply (act : Scanning α) (f : α → Scanning β) (s : Scanner) :
    (act >>= f) s = match act s with
      | none => none
      | some (.ok a, s₁) => f a s₁
      | some (.error e, s₁) => some (.error e, s₁) := by
  have h : (act >>= f) s = (act s).bind fun r => ExceptT.bindCont f r.1 r.2 := rfl
  rw [h]
  rcases act s with _ | ⟨r, s₁⟩
  · rfl
  · cases r <;> rfl

namespace Advances

theorem pure (a : α) : Advances 0 (Pure.pure a : Scanning α) := by
  rintro s r s' ⟨⟩
  exact .refl s

theorem fault (cause : LexicalFault) : Advances 0 (fault cause : Scanning α) := by
  rintro s r s' ⟨⟩
  exact .refl s

theorem bind {n : Nat} {act : Scanning α} {f : α → Scanning β} (h : Advances n act)
    (hf : ∀ a, Advances 0 (f a)) : Advances n (act >>= f) := by
  intro s r s' hr
  rw [bind_apply] at hr
  rcases hact : act s with _ | ⟨_ | a, s₁⟩ <;> rw [hact] at hr
  · cases hr
  · cases hr
    exact h _ _ _ hact
  · exact (h _ _ _ hact).trans (hf a _ _ _ hr)

theorem get {f : Scanner → Scanning α} (h : ∀ s, Advances 0 (f s)) :
    Advances 0 (MonadState.get >>= f) := fun s => h s s

theorem change {f : Scanner → Scanner} (h : ∀ s : Scanner, s.Ahead 0 (f s)) :
    Advances 0 (modify f : Scanning Unit) := by
  rintro s r s' ⟨⟩
  exact h s

theorem advance : Advances 1 advance := by
  intro s r s' h
  obtain ⟨c, -, he⟩ := Option.map_eq_some_iff.1 h
  cases he
  exact ⟨rfl, Nat.le_refl _, rfl⟩

theorem weaken {n : Nat} {act : Scanning α} (h : Advances n act) : Advances 0 act :=
  fun s r s' hr => { h s r s' hr with curr := Nat.le_trans (Nat.le_add_right ..) (h s r s' hr).curr }

theorem slice (i j : Nat) : Advances 0 (slice i j) := by
  intro s r s' h
  obtain ⟨text, -, he⟩ := Option.map_eq_some_iff.1 h
  cases he
  exact .refl s

theorem found (kind : TokenKind) : Advances 0 (found kind) :=
  .change fun _ => ⟨rfl, Nat.le_refl _, rfl⟩

theorem accept (c : Char) : Advances 0 (accept c) := by
  refine .get fun s => ?_
  split
  · exact advance.weaken.bind fun _ => .pure true
  · exact .pure false

theorem passLine : Advances 0 passLine := by
  intro s r s' h
  unfold Scanning.passLine at h
  split at h
  · next hle =>
    cases h
    refine ⟨rfl, ?_, rfl⟩
    cases hi : s.find? '\n' s.curr with
    | none => exact hle
    | some i => exact Scanner.le_of_find? hi
  · cases h

theorem string : Advances 0 string := by
  refine .bind (.change Scanner.ahead_passString) fun _ => .get fun s => ?_
  split
  · exact .fault _
  · exact advance.weaken.bind fun _ => .get fun s => (slice _ _).bind fun _ => .pure _

theorem digits : Advances 0 digits := by
  refine .bind (.change (Scanner.ahead_passWhile _)) fun _ => .get fun s => ?_
  split
  · exact advance.weaken.bind fun _ => .change (Scanner.ahead_passWhile _)
  · exact .pure ()

theorem number : Advances 0 number := by
  refine digits.bind fun _ => .get fun s => (slice _ _).bind fun text => ?_
  split
  · exact .pure _
  · exact .fault _

theorem word : Advances 0 word :=
  .bind (.change (Scanner.ahead_passWhile _)) fun _ =>
    .get fun _ => (slice _ _).bind fun _ => .pure _

theorem scanBehind (c : Char) : Advances 0 (scanBehind c) := by
  unfold Scanning.scanBehind
  split
  · exact .change fun _ => ⟨rfl, Nat.le_refl _, rfl⟩
  split
  · exact .pure ()
  split
  · refine (accept '/').bind fun comment => ?_
    cases comment with
    | true => exact passLine
    | false => exact found _
  split
  · exact string.bind found
  split
  · exact number.bind found
  split
  · exact word.bind found
  split
  · exact found _
  · exact (accept '=').bind fun long => found _
  · refine (accept c).bind fun double => ?_
    cases double with
    | true => exact found _
    | false => exact .fault _
  · exact .get fun s => (slice _ _).bind fun text => .fault _

/-- **A step passes a byte at least.** -/
theorem scanToken : Advances 1 scanToken := advance.bind scanBehind

end Advances

end Scanning

/-! ## The tokens of a text -/

namespace Scanner

/-- How much is left to do. -/
def left (s : Scanner) : Nat := if s.done then 0 else s.source.utf8ByteSize - s.curr + 1

/-- **The next token.**  Behind the end of the text and behind its first fault there is none. -/
def next (s : Scanner) : Option (Option (Except Error Token) × Scanner) :=
  if s.done then some (none, s)
  else if hend : s.atEnd then some (some (.ok ⟨.endOfFile, "", s.line⟩), { s with done := true })
  else
    match hscan : Scanning.scanToken { s with start := s.curr, pending := none } with
    | none => none
    | some (.error e, after) => some (some (.error e), { after with done := true })
    | some (.ok (), after) =>
      match after.pending with
      | none => next after
      | some kind =>
        let after := { after with pending := none }
        (after.slice? after.start after.curr).map fun lexeme =>
          (some (.ok ⟨kind, lexeme, after.line⟩), after)
termination_by s.source.utf8ByteSize - s.curr
decreasing_by
  have ahead := Scanning.Advances.scanToken _ _ _ hscan
  have hcurr := ahead.curr
  rw [ahead.source]
  simp only [atEnd, decide_eq_true_eq] at hend
  dsimp only at hcurr ⊢
  omega

theorem next_eq (s : Scanner) : s.next =
    if s.done then some (none, s)
    else if s.atEnd then some (some (.ok ⟨.endOfFile, "", s.line⟩), { s with done := true })
    else
      match Scanning.scanToken { s with start := s.curr, pending := none } with
      | none => none
      | some (.error e, after) => some (some (.error e), { after with done := true })
      | some (.ok (), after) =>
        match after.pending with
        | none => next after
        | some kind =>
          let after := { after with pending := none }
          (after.slice? after.start after.curr).map fun lexeme =>
            (some (.ok ⟨kind, lexeme, after.line⟩), after) := by
  rw [next]
  split
  · rfl
  split
  · rfl
  · split <;> next h => rw [h]

/-- What is handed out leaves less to do. -/
theorem left_lt_of_next {s s' : Scanner} {item : Except Error Token}
    (h : s.next = some (some item, s')) : s'.left < s.left := by
  induction hn : s.source.utf8ByteSize - s.curr using Nat.strongRecOn generalizing s with
  | _ n ih =>
  rw [next_eq] at h
  split at h
  · cases h
  next hdone =>
  have hleft : s.left = s.source.utf8ByteSize - s.curr + 1 := if_neg hdone
  split at h
  · cases h
    rw [hleft]
    exact Nat.succ_pos _
  next hend =>
  simp only [atEnd, decide_eq_true_eq] at hend
  split at h
  · cases h
  · cases h
    rw [hleft]
    exact Nat.succ_pos _
  next after hscan =>
  have ahead := Scanning.Advances.scanToken _ _ _ hscan
  have hsource := ahead.source
  have hcurr := ahead.curr
  have hleft' : after.left = after.source.utf8ByteSize - after.curr + 1 :=
    if_neg (by rw [ahead.done]; exact hdone)
  have hlt : after.left < s.left := by
    rw [hleft, hleft', hsource]
    dsimp only at hcurr ⊢
    omega
  split at h
  · refine Nat.lt_trans (ih _ ?_ h rfl) hlt
    rw [hsource]
    dsimp only at hcurr ⊢
    omega
  · obtain ⟨lexeme, -, he⟩ := Option.map_eq_some_iff.1 h
    cases he
    exact hlt

end Scanner

/-- The outcome of scanning: the tokens, the last one marking the end of the text, or the
    tokens before the first fault and that fault. -/
structure Scan where
  tokens : List Token
  error : Option Error

/-- All that a scanner still hands out, up to the first fault, and where it stands then. -/
def Scanner.drain (s : Scanner) : Option (Scan × Scanner) :=
  match h : s.next with
  | none => none
  | some (none, s') => some (⟨[], none⟩, s')
  | some (some (.error e), s') => some (⟨[], some e⟩, s')
  | some (some (.ok t), s') =>
    s'.drain.map fun r => ({ r.1 with tokens := t :: r.1.tokens }, r.2)
termination_by s.left
decreasing_by exact left_lt_of_next h

/-- What each call for a next token gives: the first, the second and so on. -/
def Scanner.ask : Nat → Scanner → Option (Option (Except Error Token))
  | 0, s => s.next.map Prod.fst
  | k + 1, s => s.next.bind fun r => r.2.ask k

/-- Scans a program text. -/
def scan (source : String) : Scan := ((Scanner.drain { source }).map Prod.fst).getD ⟨[], none⟩

/-- The tokens of a program text, unless it has a fault. -/
def tokens (source : String) : Except Error (List Token) :=
  let s := scan source
  match s.error with
  | none => .ok s.tokens
  | some e => .error e

end Scriptling
