/-
  Scanning — a scanner of a text hands out what there is to be read in the text.

  The scanner passes bytes, the pieces of a text consist of characters.  The two agree because
  every character that the scanner looks for is a single byte, while all bytes of the others are
  beyond ASCII and hence none of the bytes that it looks for.

  * `bytes`: the bytes of a text; `takeWhile_bytes`: they are passed as the characters are;
  * `Scanner.Faces`: the scanner stands between two characters, with the one text behind it and
    the other ahead; `slice?_between`: then the text of a piece can be cut out;
  * `Faces.scanToken`: a step of the scanner takes the piece that is ahead;
  * `Scanner.Yields`: what a scanner hands out, call by call; `Faces.yields`: it is what there is
    to be read;
  * `scan_eq`: the scan of a text is its reading, character by character; `ask_scan`: no call for
    a token goes wrong, and behind the last item of the scan there is nothing.
-/
import Scriptling.Proofs.Numerals

namespace Scriptling

/-! ## Bytes -/

/-- The bytes of a text, as the characters with their numbers. -/
def bytes (cs : List Char) : List Char :=
  cs.flatMap fun c => (String.utf8EncodeChar c).map Char.ofUInt8

@[simp] theorem bytes_nil : bytes [] = [] := rfl

@[simp] theorem bytes_append (a b : List Char) : bytes (a ++ b) = bytes a ++ bytes b :=
  List.flatMap_append

theorem bytes_cons (c : Char) (cs : List Char) : bytes (c :: cs) = bytes [c] ++ bytes cs :=
  bytes_append [c] cs

theorem bytes_toList (s : String) :
    bytes s.toList = s.toByteArray.data.toList.map Char.ofUInt8 := by
  rw [← String.utf8Encode_toList, List.utf8Encode, bytes]
  simp [List.map_flatMap]

theorem length_bytes (cs : List Char) : (bytes cs).length = (String.ofList cs).utf8ByteSize := by
  have h := congrArg List.length (bytes_toList (.ofList cs))
  rw [String.toList_ofList] at h
  rw [h, List.length_map, ← String.size_toByteArray]
  rfl

section
variable {b c : Char} {cs : List Char}

/-- A character of ASCII is its only byte … -/
theorem bytes_of_lt (h : c.toNat < 128) : bytes [c] = [c] := by
  have hn : c.val.toNat ≤ 127 := Nat.le_of_lt_succ h
  have hc : Char.ofUInt8 (UInt8.ofNat c.val.toNat) = c := by
    apply Char.ext
    apply UInt32.toNat_inj.1
    unfold Char.ofUInt8
    simp
    omega
  rw [bytes, List.flatMap_singleton, String.utf8EncodeChar]
  simp only [hn, if_true, List.map_cons, hc, List.map_nil]

/-- … and the bytes of all other characters are beyond ASCII. -/
theorem le_of_mem_bytes (h : 128 ≤ c.toNat) (hb : b ∈ bytes [c]) : 128 ≤ b.toNat := by
  have hn : ¬ c.val.toNat ≤ 127 := Nat.not_le.2 h
  have hbyte (n : Nat) (h : 128 ≤ n % 256) : 128 ≤ (Char.ofUInt8 (.ofNat n)).toNat := by
    unfold Char.ofUInt8 Char.toNat
    simpa using h
  simp only [bytes, List.flatMap_cons, List.flatMap_nil, List.append_nil, String.utf8EncodeChar,
    hn, if_false] at hb
  split at hb
  · simp only [List.map_cons, List.map_nil, List.mem_cons, List.not_mem_nil, or_false] at hb
    obtain rfl | rfl := hb <;> exact hbyte _ (by omega)
  split at hb
  · simp only [List.map_cons, List.map_nil, List.mem_cons, List.not_mem_nil, or_false] at hb
    obtain rfl | rfl | rfl := hb <;> exact hbyte _ (by omega)
  · simp only [List.map_cons, List.map_nil, List.mem_cons, List.not_mem_nil, or_false] at hb
    obtain rfl | rfl | rfl | rfl := hb <;> exact hbyte _ (by omega)

theorem bytes_ne_nil : bytes [c] ≠ [] := by
  simp [bytes, String.utf8EncodeChar_ne_nil]

end

theorem ne_ascii {c d : Char} (h : 128 ≤ c.toNat) (hd : d.toNat < 128) : c ≠ d := by
  rintro rfl
  omega

/-- Nothing that a piece starts with, except for a stray character, is beyond ASCII. -/
theorem beyond {c : Char} (h : 128 ≤ c.toNat) : isSpace c = false ∧ c.isDigit = false ∧
    isWordStart c = false ∧ singleMark? c = none ∧ equalMark? c = none ∧ doubleMark? c = none := by
  have halpha : c.isAlpha = false := by
    have : 128 ≤ c.val.toNat := h
    unfold Char.isAlpha Char.isUpper Char.isLower
    simp [UInt32.le_iff_toNat_le]
    omega
  refine ⟨?_, ?_, ?_, ?_, ?_, ?_⟩
  · simp [isSpace, ne_ascii h]
  · have : 128 ≤ c.val.toNat := h
    simp [Char.isDigit, UInt32.le_iff_toNat_le]
    omega
  · simp [isWordStart, halpha, ne_ascii h]
  · unfold singleMark?; split <;> first | rfl | exact absurd h (by decide)
  · unfold equalMark?; split <;> first | rfl | exact absurd h (by decide)
  · unfold doubleMark?; split <;> first | rfl | exact absurd h (by decide)

theorem piece_beyond {c : Char} (h : 128 ≤ c.toNat) (cs : List Char) :
    piece c cs = .fault (.stray c) [c] cs := by
  obtain ⟨hspace, hdigit, hword, hsingle, hequal, hdouble⟩ := beyond h
  simp [piece, ne_ascii h, hspace, hdigit, hword, hsingle, hequal, hdouble]

theorem scanBehind_beyond {b : Char} (h : 128 ≤ b.toNat) : Scanning.scanBehind b =
    (get >>= fun s => Scanning.slice s.start s.source.utf8ByteSize >>= fun text =>
      Scanning.fault (.stray (text.toList.headD '?'))) := by
  obtain ⟨hspace, hdigit, hword, hsingle, hequal, hdouble⟩ := beyond h
  simp [Scanning.scanBehind, ne_ascii h, hspace, hdigit, hword, hsingle, hequal, hdouble]

/-- **Classes that are told by ASCII**: they do not tell any two other characters apart. -/
def Plain (p : Char → Bool) : Prop := ∀ c d : Char, 128 ≤ c.toNat → 128 ≤ d.toNat → p c = p d

theorem plain_beq {c : Char} (h : c.toNat < 128) : Plain (· == c) := by
  intro d e hd he
  simp [ne_ascii hd h, ne_ascii he h]

theorem plain_bne {c : Char} (h : c.toNat < 128) : Plain (· != c) :=
  fun d e hd he => congrArg (! ·) (plain_beq h d e hd he)

theorem plain_isDigit : Plain Char.isDigit :=
  fun _ _ hc hd => (beyond hc).2.1.trans (beyond hd).2.1.symm

theorem plain_isWordChar : Plain isWordChar := by
  have word (c : Char) (h : 128 ≤ c.toNat) : isWordChar c = false := by
    have hstart := (beyond h).2.2.1
    rw [isWordStart, Bool.or_eq_false_iff] at hstart
    simp [isWordChar, Char.isAlphanum, hstart, (beyond h).2.1]
  exact fun c d hc hd => (word c hc).trans (word d hd).symm

/-- The first byte is told by the first character … -/
theorem any_head?_bytes {p : Char → Bool} (hp : Plain p) (cs : List Char) :
    (bytes cs).head?.any p = cs.head?.any p := by
  cases cs with
  | nil => rfl
  | cons c cs =>
    rw [bytes_cons]
    by_cases hc : c.toNat < 128
    · rw [bytes_of_lt hc]
      rfl
    · rw [Nat.not_lt] at hc
      obtain ⟨b, bs, hb⟩ := List.exists_cons_of_ne_nil (bytes_ne_nil (c := c))
      have hle := le_of_mem_bytes hc (hb ▸ List.mem_cons_self)
      simp [hb, hp b c hle hc]

/-- … and bytes are passed as the characters are. -/
theorem takeWhile_bytes {p : Char → Bool} (hp : Plain p) (cs : List Char) :
    (bytes cs).takeWhile p = bytes (cs.takeWhile p) := by
  induction cs with
  | nil => rfl
  | cons c cs ih =>
    rw [bytes_cons]
    by_cases hc : c.toNat < 128
    · rw [bytes_of_lt hc, List.singleton_append, List.takeWhile_cons, List.takeWhile_cons]
      split
      · rw [bytes_cons, bytes_of_lt hc, ih]
        rfl
      · rfl
    · rw [Nat.not_lt] at hc
      have hbytes : ∀ b ∈ bytes [c], p b = p c := fun b hb => hp b c (le_of_mem_bytes hc hb) hc
      rw [List.takeWhile_cons]
      split
      · next h =>
        rw [List.takeWhile_append_of_pos fun b hb => (hbytes b hb).trans h, ih, ← bytes_cons]
      · next h =>
        obtain ⟨b, bs, hb⟩ := List.exists_cons_of_ne_nil (bytes_ne_nil (c := c))
        rw [hb] at hbytes ⊢
        simp [hbytes b (.head _), h]

theorem lineBreaks_singleton (c : Char) : lineBreaks [c] = (c == '\n').toNat := by
  rw [lineBreaks, List.count_singleton]
  cases c == '\n' <;> rfl

theorem lineBreaks_bytes (cs : List Char) : lineBreaks (bytes cs) = lineBreaks cs := by
  induction cs with
  | nil => rfl
  | cons c cs ih =>
    rw [bytes_cons, lineBreaks_append, lineBreaks_cons c, ih]
    by_cases hc : c.toNat < 128
    · rw [bytes_of_lt hc]
    · rw [Nat.not_lt] at hc
      have hnot : lineBreaks (bytes [c]) = 0 :=
        List.count_eq_zero.2 fun hb => absurd (le_of_mem_bytes hc hb) (by decide)
      have hc' : lineBreaks [c] = 0 :=
        List.count_eq_zero.2 fun hb => ne_ascii hc (by decide) (List.mem_singleton.1 hb).symm
      rw [hnot, hc']

/-! ## Slices -/

/-- Wherever a text comes apart, there is a place. -/
theorem exists_splits {source a b : String} (h : source = a ++ b) :
    ∃ p : source.Pos, p.Splits a b := by
  subst h
  exact ⟨⟨a.rawEndPos, String.Pos.Raw.isValid_iff_exists_append.2 ⟨a, b, rfl, rfl⟩⟩, rfl, rfl⟩

/-- The slice between two places is the text between them. -/
theorem extract_of_splits {source : String} {p q : source.Pos} {a b c : String}
    (hp : p.Splits a (b ++ c)) (hq : q.Splits (a ++ b) c) : source.extract p q = b := by
  rw [← String.toByteArray_inj, String.toByteArray_extract, hp.offset_eq_rawEndPos,
    hq.offset_eq_rawEndPos, hp.eq_append]
  simp [ByteArray.extract_append, ← String.size_toByteArray,
    ByteArray.extract_eq_empty_iff.2 (Nat.min_le_right ..)]

/-- **No slice between two characters fails**: it is the text between them. -/
theorem Scanner.slice?_between {s : Scanner} {a b c : List Char} {i j : Nat}
    (hs : s.source = .ofList (a ++ b ++ c)) (hi : i = (bytes a).length)
    (hj : j = (bytes (a ++ b)).length) : s.slice? i j = some (.ofList b) := by
  simp only [String.ofList_append, String.append_assoc] at hs
  obtain ⟨p, hp⟩ := exists_splits hs
  obtain ⟨q, hq⟩ : ∃ q : s.source.Pos, q.Splits (.ofList a ++ .ofList b) (.ofList c) :=
    exists_splits (by rw [String.append_assoc]; exact hs)
  have hi' : p.offset = ⟨i⟩ := by
    rw [hp.offset_eq_rawEndPos, hi, length_bytes]
    rfl
  have hj' : q.offset = ⟨j⟩ := by
    rw [hq.offset_eq_rawEndPos, hj, length_bytes, String.ofList_append]
    rfl
  have hle : i ≤ j := by
    rw [hi, hj, bytes_append, List.length_append]
    exact Nat.le_add_right ..
  rw [Scanner.slice?, dif_pos ⟨hle, hi' ▸ p.isValid, hj' ▸ q.isValid⟩, ← extract_of_splits hp hq]
  congr 2
  · exact String.Pos.ext hi'.symm
  · exact String.Pos.ext hj'.symm

/-! ## The bytes ahead of a scanner -/

namespace Scanner

/-- The bytes from a place on. -/
def bytesFrom (s : Scanner) (i : Nat) : List Char := (bytes s.source.toList).drop i

section
variable (s : Scanner) {i : Nat}

theorem length_bytes_source : (bytes s.source.toList).length = s.source.utf8ByteSize := by
  rw [length_bytes, String.ofList_toList]

theorem byte?_eq (i : Nat) : s.byte? i = (bytes s.source.toList)[i]? := by
  unfold byte? byte
  split
  · next h =>
    simp [bytes_toList, String.getUTF8Byte, h]
    rfl
  · next h =>
    rw [List.getElem?_eq_none (by rw [length_bytes_source]; omega)]

theorem bytesFrom_of_lt (h : i < s.source.utf8ByteSize) :
    s.bytesFrom i = s.byte i h :: s.bytesFrom (i + 1) := by
  have hbyte : s.byte? i = some (s.byte i h) := dif_pos h
  have hlt : i < (bytes s.source.toList).length := by rwa [length_bytes_source]
  rw [byte?_eq, List.getElem?_eq_getElem hlt, Option.some_inj] at hbyte
  rw [bytesFrom, List.drop_eq_getElem_cons hlt, hbyte, bytesFrom]

theorem bytesFrom_of_le (h : ¬ i < s.source.utf8ByteSize) : s.bytesFrom i = [] :=
  List.drop_eq_nil_of_le (by rw [length_bytes_source]; omega)

theorem passWhile_eq (p : Char → Bool) : s.passWhile p =
    { s with curr := s.curr + ((s.bytesFrom s.curr).takeWhile p).length } := by
  fun_induction passWhile p s with
  | case1 s h hp ih =>
    rw [ih, s.bytesFrom_of_lt h, List.takeWhile_cons_of_pos hp, List.length_cons]
    congr 1
    exact Nat.add_right_comm ..
  | case2 s h hp => rw [s.bytesFrom_of_lt h, List.takeWhile_cons_of_neg hp]; rfl
  | case3 s h => rw [s.bytesFrom_of_le h]; rfl

theorem passString_eq : s.passString =
    let contents := (s.bytesFrom s.curr).takeWhile (· != '"')
    { s with curr := s.curr + contents.length, line := s.line + lineBreaks contents } := by
  fun_induction passString s with
  | case1 s h c hc => rw [s.bytesFrom_of_lt h, List.takeWhile_cons_of_neg (by simpa using hc)]; rfl
  | case2 s h c hc ih =>
    rw [ih, s.bytesFrom_of_lt h, List.takeWhile_cons_of_pos (by simpa using hc)]
    dsimp only
    rw [lineBreaks_cons (s.byte s.curr h), List.length_cons]
    congr 1
    · exact Nat.add_right_comm ..
    · rw [lineBreaks_singleton, Nat.add_assoc]
      rfl
  | case3 s h => rw [s.bytesFrom_of_le h]; rfl

theorem getD_find? (c : Char) (h : i ≤ s.source.utf8ByteSize) :
    (s.find? c i).getD s.source.utf8ByteSize =
      i + ((s.bytesFrom i).takeWhile (· != c)).length := by
  fun_induction find? s c i with
  | case1 i hi hc =>
    rw [s.bytesFrom_of_lt hi, List.takeWhile_cons_of_neg (by simpa using hc)]
    rfl
  | case2 i hi hc ih =>
    rw [ih hi, s.bytesFrom_of_lt hi, List.takeWhile_cons_of_pos (by simpa using hc)]
    exact Nat.add_right_comm ..
  | case3 i hi =>
    rw [s.bytesFrom_of_le hi]
    exact Nat.le_antisymm (Nat.not_lt.1 hi) h

end

/-! ## Scanners between characters -/

/-- A character that a scanner may look for: a single byte, neither a line break nor what the end
    counts as. -/
def Sought (c : Char) : Prop := c.toNat < 128 ∧ c ≠ '\n' ∧ ('\x00' == c) = false

instance : DecidablePred Sought := fun _ => inferInstanceAs (Decidable (_ ∧ _ ∧ _))

/-- **A scanner stands between two characters**: it has passed one text, and faces the other. -/
structure Faces (s : Scanner) (before cs : List Char) : Prop where
  source : s.source = .ofList (before ++ cs)
  curr : s.curr = (bytes before).length

/-- The scanner behind a text that is ahead. -/
def past (s : Scanner) (text : List Char) : Scanner :=
  { s with curr := s.curr + (bytes text).length, line := s.line + lineBreaks text }

theorem past_past (s : Scanner) (a b : List Char) : (s.past a).past b = s.past (a ++ b) := by
  simp [past, Nat.add_assoc]

/-- Behind a single byte that ends no line. -/
theorem past_singleton (s : Scanner) {c : Char} (hc : c.toNat < 128) (hn : c ≠ '\n') :
    s.past [c] = { s with curr := s.curr + 1 } := by
  simp [past, bytes_of_lt hc, lineBreaks_singleton, hn]

namespace Faces

variable {s : Scanner} {before cs text rest : List Char} {c : Char} {p : Char → Bool}

theorem past (h : s.Faces before (text ++ rest)) : (s.past text).Faces (before ++ text) rest where
  source := by rw [List.append_assoc]; exact h.source
  curr := by rw [bytes_append, List.length_append, ← h.curr]; rfl

theorem past_first (h : s.Faces before (c :: cs)) : (s.past [c]).Faces (before ++ [c]) cs := h.past

theorem bytesFrom (h : s.Faces before cs) : s.bytesFrom s.curr = bytes cs := by
  rw [Scanner.bytesFrom, h.source, String.toList_ofList, bytes_append, h.curr,
    List.drop_left]

theorem curr_le (h : s.Faces before cs) : s.curr ≤ s.source.utf8ByteSize := by
  rw [h.curr, h.source, ← length_bytes, bytes_append, List.length_append]
  exact Nat.le_add_right ..

theorem byte? (h : s.Faces before cs) (k : Nat) : s.byte? (s.curr + k) = (bytes cs)[k]? := by
  rw [byte?_eq, ← h.bytesFrom, Scanner.bytesFrom, List.getElem?_drop]

theorem atEnd (h : s.Faces before cs) : s.atEnd = cs.isEmpty := by
  have hsize : s.source.utf8ByteSize = s.curr + (bytes cs).length := by
    rw [h.curr, h.source, ← length_bytes, bytes_append, List.length_append]
  rw [Scanner.atEnd, hsize]
  cases cs with
  | nil => simp
  | cons c cs =>
    have hpos := List.length_pos_iff.2 (bytes_ne_nil (c := c))
    rw [bytes_cons, List.length_append]
    exact decide_eq_false (by omega)

theorem advance_byte (h : s.Faces before cs) {b : Char} {bs : List Char}
    (hb : bytes cs = b :: bs) : Scanning.advance s = some (.ok b, { s with curr := s.curr + 1 }) := by
  have hbyte : s.byte? s.curr = _ := h.byte? 0
  rw [hb] at hbyte
  rw [Scanning.advance, hbyte]
  rfl

theorem advance (h : s.Faces before (c :: cs)) (hc : c.toNat < 128) :
    Scanning.advance s = some (.ok c, { s with curr := s.curr + 1 }) :=
  have hbytes : bytes (c :: cs) = c :: bytes cs := by
    rw [bytes_cons, bytes_of_lt hc]
    rfl
  h.advance_byte hbytes

theorem advance_past (h : s.Faces before (c :: cs)) (hc : Sought c) :
    Scanning.advance s = some (.ok c, s.past [c]) := by
  rw [s.past_singleton hc.1 hc.2.1]
  exact h.advance hc.1

theorem peek (h : s.Faces before cs) (hp : Plain p) (h0 : p '\x00' = false) :
    p s.peek = cs.head?.any p := by
  have hbyte : s.byte? s.curr = _ := h.byte? 0
  rw [← List.head?_eq_getElem?] at hbyte
  rw [← any_head?_bytes hp, ← hbyte, Scanner.peek]
  cases s.byte? s.curr <;> simp [h0]

theorem peekNext (h : s.Faces before (c :: cs)) (hc : c.toNat < 128) (hp : Plain p)
    (h0 : p '\x00' = false) : p s.peekNext = cs.head?.any p := by
  have hbyte := h.byte? 1
  rw [bytes_cons, bytes_of_lt hc, List.singleton_append, List.getElem?_cons_succ,
    ← List.head?_eq_getElem?] at hbyte
  rw [← any_head?_bytes hp, ← hbyte, Scanner.peekNext]
  cases s.byte? (s.curr + 1) <;> simp [h0]

theorem accept (h : s.Faces before cs) (hc : Sought c) : Scanning.accept c s =
    if cs.head? = some c then some (.ok true, s.past [c]) else some (.ok false, s) := by
  have hpeek := h.peek (plain_beq hc.1) hc.2.2
  have hcond : (!s.atEnd && s.peek == c) = (cs.head? == some c) := by
    rw [h.atEnd, hpeek]
    cases cs <;> simp
  change (if (!s.atEnd && s.peek == c) = true then
    (Scanning.advance >>= fun _ => pure true : Scanning Bool) else pure false) s = _
  rw [hcond]
  simp only [beq_iff_eq]
  split
  · next hhead =>
    obtain ⟨cs, rfl⟩ := List.head?_eq_some_iff.1 hhead
    rw [Scanning.bind_apply, h.advance_past hc]
    rfl
  · rfl

theorem accept_here (h : s.Faces before (c :: cs)) (hc : Sought c) :
    Scanning.accept c s = some (.ok true, s.past [c]) :=
  (h.accept hc).trans (if_pos rfl)

theorem accept_other (h : s.Faces before cs) (hc : Sought c) (hne : ∀ rest, cs ≠ c :: rest) :
    Scanning.accept c s = some (.ok false, s) := by
  refine (h.accept hc).trans (if_neg fun hhead => ?_)
  obtain ⟨rest, rfl⟩ := List.head?_eq_some_iff.1 hhead
  exact hne rest rfl

theorem passWhile (h : s.Faces before cs) (hp : Plain p) (hn : p '\n' = false) :
    s.passWhile p = s.past (cs.takeWhile p) := by
  have hlines : lineBreaks (cs.takeWhile p) = 0 := by
    refine List.count_eq_zero.2 fun hc => ?_
    rw [List.mem_takeWhile_imp hc] at hn
    cases hn
  rw [passWhile_eq, h.bytesFrom, takeWhile_bytes hp, Scanner.past, hlines]
  rfl

theorem passString (h : s.Faces before cs) :
    s.passString = s.past (cs.takeWhile (· != '"')) := by
  rw [passString_eq, h.bytesFrom, takeWhile_bytes (plain_bne (by decide))]
  dsimp only
  rw [lineBreaks_bytes, Scanner.past]

theorem passLine (h : s.Faces before cs) :
    Scanning.passLine s = some (.ok (), s.past (cs.takeWhile (· != '\n'))) := by
  have hlines : lineBreaks (cs.takeWhile (· != '\n')) = 0 := List.count_eq_zero.2 notMem_takeWhile
  rw [Scanning.passLine, if_pos h.curr_le, getD_find? s '\n' h.curr_le, h.bytesFrom,
    takeWhile_bytes (plain_bne (by decide)), Scanner.past, hlines]
  rfl

end Faces

end Scanner

/-! ## Steps -/

namespace Scanning

section
variable {α β : Type} {act : Scanning α} {a : α} {s s' : Scanner}

theorem bind_ok (h : act s = some (.ok a, s')) (f : α → Scanning β) : (act >>= f) s = f a s' := by
  rw [bind_apply, h]

theorem get_bind (f : Scanner → Scanning β) : (get >>= f) s = f s s := rfl

theorem modify_bind (g : Scanner → Scanner) (f : Unit → Scanning β) :
    (modify g >>= f) s = f () (g s) := rfl

theorem fault_apply (cause : LexicalFault) :
    (fault cause : Scanning α) s = some (.error (.lexical s.line cause), s) := rfl

end

end Scanning

namespace Scanner

/-- **What a step makes of a piece**: it passes gaps and tokens, and keeps the kind of a token; at
    a fault it stops, on the line of the place where the fault is noticed. -/
inductive Takes (s : Scanner) : Piece → Option (Except Error Unit × Scanner) → Prop
  | gap {text rest} : Takes s (.gap text rest) (some (.ok (), s.past text))
  | token {kind text rest} :
      Takes s (.token kind text rest) (some (.ok (), { s.past text with pending := some kind }))
  | fault {fault text rest s'} : Takes s (.fault fault text rest)
      (some (.error (.lexical (s.line + lineBreaks text) fault), s'))

end Scanner

/-- A number with its first digit, and what its text is read as. -/
theorem numberPiece_cons {d : Char} (hd : d.isDigit = true) (cs : List Char) :
    ∃ value, numberPiece (d :: cs) =
        .token (.number value) (d :: (numberPiece cs).text) (numberPiece cs).rest ∧
      Number.read (.ofList (d :: (numberPiece cs).text)) = some value := by
  have htake : (d :: cs).takeWhile Char.isDigit = d :: cs.takeWhile Char.isDigit := by simp [hd]
  have hdrop : (d :: cs).dropWhile Char.isDigit = cs.dropWhile Char.isDigit := by simp [hd]
  have hwhole : ∀ c ∈ d :: cs.takeWhile Char.isDigit, c.isDigit = true :=
    List.forall_mem_cons.2 ⟨hd, fun _ => List.mem_takeWhile_imp⟩
  have hnil {ds : List Char} : d :: ds ≠ [] := List.cons_ne_nil d ds
  unfold numberPiece
  rw [htake, hdrop]
  split
  · split
    · exact ⟨_, rfl, (read_decimal hwhole (fun _ => List.mem_takeWhile_imp) hnil).2⟩
    · exact ⟨_, rfl, (read_decimal hwhole (List.forall_mem_nil _) hnil).1⟩
  · exact ⟨_, rfl, (read_decimal hwhole (List.forall_mem_nil _) hnil).1⟩

/-- The text of a number: with a fraction, if a digit follows a point, and else without one. -/
theorem numberPiece_text (cs : List Char) :
    (∃ d r, cs.dropWhile Char.isDigit = '.' :: d :: r ∧ d.isDigit = true ∧
      (numberPiece cs).text =
        cs.takeWhile Char.isDigit ++ '.' :: (d :: r).takeWhile Char.isDigit) ∨
    ((∀ d r, cs.dropWhile Char.isDigit = '.' :: d :: r → d.isDigit = false) ∧
      (numberPiece cs).text = cs.takeWhile Char.isDigit) := by
  unfold numberPiece
  split
  · next d r htail =>
    split
    · next hd => exact .inl ⟨d, r, htail, hd, rfl⟩
    · next hd =>
      refine .inr ⟨fun d' r' h => ?_, rfl⟩
      obtain ⟨-, rfl, rfl⟩ := htail.symm.trans h
      exact Bool.eq_false_iff.2 hd
  · next hno => exact .inr ⟨fun d r h => absurd h (hno d r), rfl⟩

namespace Scanner.Faces

open Scanning

variable {s : Scanner} {before cs text rest : List Char} {c d : Char}

theorem point (h : s.Faces before ('.' :: d :: rest)) (hd : d.isDigit = true) :
    (s.peek = '.' && s.peekNext.isDigit) = true := by
  have hpeek : decide (s.peek = '.') = true := h.peek (plain_beq (by decide)) (by decide)
  rw [hpeek, h.peekNext (by decide) plain_isDigit rfl]
  exact hd

theorem no_point (h : s.Faces before cs) (hno : ∀ d r, cs = '.' :: d :: r → d.isDigit = false) :
    (s.peek = '.' && s.peekNext.isDigit) = false := by
  have hpeek : decide (s.peek = '.') = cs.head?.any (· == '.') :=
    h.peek (plain_beq (by decide)) (by decide)
  rw [hpeek]
  match cs with
  | [] => rfl
  | c :: cs =>
    by_cases hc : c = '.'
    · subst hc
      rw [h.peekNext (by decide) plain_isDigit rfl]
      cases cs with
      | nil => rfl
      | cons d r => exact hno d r rfl
    · simp [hc]

/-- Digits are passed up to the end of the number that is ahead. -/
theorem digits (h : s.Faces before cs) :
    Scanning.digits s = some (.ok (), s.past (numberPiece cs).text) := by
  have hpass := h.passWhile plain_isDigit rfl
  rw [← List.takeWhile_append_dropWhile (p := Char.isDigit) (l := cs)] at h
  have hs := h.past
  rw [Scanning.digits, modify_bind, get_bind, hpass]
  rcases numberPiece_text cs with ⟨d, r, htail, hd, htext⟩ | ⟨hno, htext⟩
  · rw [htail] at hs
    rw [if_pos (hs.point hd), bind_ok (hs.advance_past (by decide)), htext]
    have hpoint : ((s.past _).past ['.']).Faces _ (d :: r) := hs.past
    change some (Except.ok (), (((s.past _).past ['.']).passWhile Char.isDigit)) = _
    rw [hpoint.passWhile plain_isDigit rfl, past_past, past_past]
    rfl
  · rw [if_neg (by rw [hs.no_point hno]; exact Bool.false_ne_true), htext]
    rfl

/-- A text that was ahead can be cut out when it has been passed. -/
theorem slice? (h : s.Faces before (text ++ rest)) (hstart : s.start = s.curr) :
    (s.past text).slice? (s.past text).start (s.past text).curr = some (.ofList text) := by
  refine slice?_between (a := before) (c := rest) ?_ (hstart.trans h.curr) h.past.curr
  rw [List.append_assoc]
  exact h.source

theorem slice (h : s.Faces before (text ++ rest)) (hstart : s.start = s.curr) :
    Scanning.slice (s.past text).start (s.past text).curr (s.past text) =
      some (.ok (.ofList text), s.past text) := by
  rw [Scanning.slice, h.slice? hstart]
  rfl

theorem number (h : s.Faces before (c :: cs)) (hc : c.isDigit = true) (hstart : s.start = s.curr) :
    s.Takes (numberPiece (c :: cs)) ((Scanning.number >>= Scanning.found) (s.past [c])) := by
  obtain ⟨value, hpiece, hread⟩ := numberPiece_cons hc cs
  have happ : c :: (numberPiece cs).text ++ (numberPiece cs).rest = c :: cs := by
    have h := piece_text_append c cs
    rw [piece_of_isDigit hc, hpiece] at h
    exact h
  have hslice := (happ ▸ h).slice hstart
  have hdigits := h.past_first.digits
  rw [past_past] at hdigits
  have hnumber : Scanning.number (s.past [c]) =
      some (.ok (.number value), s.past (c :: (numberPiece cs).text)) := by
    rw [Scanning.number, bind_ok hdigits, get_bind]
    refine (bind_ok hslice _).trans ?_
    rw [hread]
    rfl
  rw [hpiece, bind_ok hnumber]
  exact .token

theorem word (h : s.Faces before (c :: cs)) (hc : isWordStart c = true) (hstart : s.start = s.curr) :
    s.Takes (wordPiece (c :: cs)) ((Scanning.word >>= Scanning.found) (s.past [c])) := by
  have htake : (c :: cs).takeWhile isWordChar = c :: cs.takeWhile isWordChar := by
    simp [isWordChar_of_isWordStart hc]
  have hpass := h.past_first.passWhile plain_isWordChar rfl
  rw [past_past] at hpass
  have happ := List.takeWhile_append_dropWhile (p := isWordChar) (l := c :: cs)
  rw [htake] at happ
  have hslice := (happ ▸ h).slice hstart
  have hword : Scanning.word (s.past [c]) =
      some (.ok (.ofWord (.ofList (c :: cs.takeWhile isWordChar))),
        s.past (c :: cs.takeWhile isWordChar)) := by
    rw [Scanning.word, modify_bind, get_bind, hpass]
    exact bind_ok hslice _
  rw [wordPiece, htake, bind_ok hword]
  exact .token

theorem string (h : s.Faces before ('"' :: cs)) (hstart : s.start = s.curr) :
    s.Takes (stringPiece cs) ((Scanning.string >>= Scanning.found) (s.past ['"'])) := by
  have hpass := h.past_first.passString
  rw [past_past, List.singleton_append] at hpass
  have happ := List.takeWhile_append_dropWhile (p := (· != '"')) (l := cs)
  have hquote : ∀ c ∈ (cs.dropWhile (· != '"')).head?, c = '"' := head?_dropWhile
  unfold stringPiece
  generalize cs.takeWhile (· != '"') = contents at happ hpass
  generalize cs.dropWhile (· != '"') = tail at happ hquote
  subst happ
  have hcontents : (s.past ('"' :: contents)).Faces (before ++ '"' :: contents) tail := h.past
  rw [bind_apply, Scanning.string, modify_bind, get_bind, hpass, hcontents.atEnd]
  cases tail with
  | nil => exact .fault
  | cons quote rest =>
    obtain rfl := hquote quote rfl
    have hadvance := hcontents.advance_past (by decide)
    rw [past_past] at hadvance
    have hbehind : (s.past ('"' :: contents ++ ['"'])).curr =
        (bytes (before ++ ['"'] ++ contents)).length + 1 := by
      change s.curr + (bytes ('"' :: contents ++ ['"'])).length = _
      rw [h.curr, bytes_append ('"' :: contents), bytes_of_lt (c := '"') (by decide)]
      simp [bytes_cons '"' contents, Nat.add_assoc]
    have hslice : (s.past ('"' :: contents ++ ['"'])).slice?
        ((s.past ('"' :: contents ++ ['"'])).start + 1)
        ((s.past ('"' :: contents ++ ['"'])).curr - 1) = some (.ofList contents) := by
      refine slice?_between (a := before ++ ['"']) (c := '"' :: rest) ?_ ?_ ?_
      · rw [List.append_assoc, List.append_assoc]
        exact h.source
      · change s.start + 1 = _
        rw [hstart, h.curr, bytes_append, bytes_of_lt (by decide)]
        simp
      · rw [hbehind]
        rfl
    simp only [List.isEmpty_cons, Bool.false_eq_true, if_false]
    rw [bind_ok hadvance, get_bind, bind_apply, Scanning.slice, hslice]
    exact .token

theorem slash (h : s.Faces before ('/' :: cs)) : s.Takes (slashPiece cs)
    ((Scanning.accept '/' >>= fun comment => if comment then Scanning.passLine else found .slash)
      (s.past ['/'])) := by
  have hs := h.past_first
  unfold slashPiece
  split
  · next cs =>
    have hline := hs.past_first
    rw [bind_ok (hs.accept_here (by decide)), past_past]
    rw [past_past] at hline
    change s.Takes _ (Scanning.passLine _)
    rw [hline.passLine, past_past]
    exact .gap
  · next hne =>
    rw [bind_ok (hs.accept_other (by decide) hne)]
    exact .token

theorem equal (h : s.Faces before (c :: cs)) (long short : TokenKind) :
    s.Takes (equalPiece c long short cs)
      ((Scanning.accept '=' >>= fun extended => found (if extended then long else short))
        (s.past [c])) := by
  have hs := h.past_first
  unfold equalPiece
  split
  · rw [bind_ok (hs.accept_here (by decide)), past_past]
    exact .token
  · next hne =>
    rw [bind_ok (hs.accept_other (by decide) hne)]
    exact .token

theorem double {kind : TokenKind} (h : s.Faces before (c :: cs)) (hc : doubleMark? c = some kind) :
    s.Takes (doublePiece c kind cs)
      ((Scanning.accept c >>= fun doubled => if doubled then found kind else fault (.lone c))
        (s.past [c])) := by
  have hs := h.past_first
  have hmark : Sought c := by
    unfold doubleMark? at hc
    split at hc <;> cases hc <;> decide
  cases cs with
  | nil =>
    rw [bind_ok (hs.accept_other hmark nofun)]
    exact .fault
  | cons d cs =>
    rw [doublePiece]
    split
    · next hd =>
      subst hd
      rw [bind_ok (hs.accept_here hmark), past_past]
      exact .token
    · next hd =>
      rw [bind_ok (hs.accept_other hmark fun rest h => hd (List.cons.inj h).1)]
      exact .fault

/-- A character that starts nothing is reported, also if only its first byte has been passed. -/
theorem stray (h : s.Faces before (c :: cs)) (hc : c ≠ '\n') (hstart : s.start = s.curr) :
    s.Takes (.fault (.stray c) [c] cs)
      ((get >>= fun s => Scanning.slice s.start s.source.utf8ByteSize >>= fun text =>
        fault (.stray (text.toList.headD '?')) : Scanning Unit) { s with curr := s.curr + 1 }) := by
  have hsize : s.source.utf8ByteSize = (bytes (before ++ c :: cs)).length := by
    rw [h.source, length_bytes]
  have hslice : Scanner.slice? { s with curr := s.curr + 1 } s.start s.source.utf8ByteSize =
      some (.ofList (c :: cs)) := by
    refine slice?_between (a := before) (c := []) ?_ (hstart.trans h.curr) hsize
    rw [List.append_nil]
    exact h.source
  have hline : s.line = s.line + lineBreaks [c] := by simp [lineBreaks_singleton, hc]
  rw [get_bind, bind_apply, Scanning.slice, hslice]
  simp only [Option.map_some, String.toList_ofList, List.headD_cons, fault_apply]
  rw [hline]
  exact .fault

/-- Behind the only byte of its first character, a piece is taken. -/
theorem scanBehind (h : s.Faces before (c :: cs)) (hc : c.toNat < 128)
    (hstart : s.start = s.curr) :
    s.Takes (piece c cs) (Scanning.scanBehind c { s with curr := s.curr + 1 }) := by
  by_cases hn : c = '\n'
  · subst hn
    have hpast : s.past ['\n'] = { s with curr := s.curr + 1, line := s.line + 1 } := by
      rw [Scanner.past, bytes_of_lt hc]
      rfl
    have htakes : s.Takes (.gap ['\n'] cs) (some (.ok (), s.past ['\n'])) := .gap
    rwa [hpast] at htakes
  · have hpast := s.past_singleton hc hn
    unfold Scanning.scanBehind piece
    rw [if_neg hn]
    split
    · rw [← hpast]
      exact .gap
    split
    · next hslash =>
      subst hslash
      rw [← hpast]
      exact h.slash
    split
    · next hquote =>
      subst hquote
      rw [← hpast]
      exact h.string hstart
    split
    · next hdigit =>
      rw [← hpast]
      exact h.number hdigit hstart
    split
    · next hword =>
      rw [← hpast]
      exact h.word hword hstart
    rcases singleMark? c with _ | kind
    · rcases equalMark? c with _ | ⟨long, short⟩
      · cases hdouble : doubleMark? c with
        | none => exact h.stray hn hstart
        | some kind =>
          rw [← hpast]
          exact h.double hdouble
      · rw [← hpast]
        exact h.equal long short
    · rw [← hpast]
      exact .token

/-- **A step takes the piece that is ahead.** -/
theorem scanToken (h : s.Faces before (c :: cs)) (hstart : s.start = s.curr) :
    s.Takes (piece c cs) (Scanning.scanToken s) := by
  by_cases hc : c.toNat < 128
  · rw [Scanning.scanToken, bind_ok (h.advance hc)]
    exact h.scanBehind hc hstart
  · rw [Nat.not_lt] at hc
    obtain ⟨b, bs, hb⟩ := List.exists_cons_of_ne_nil (bytes_ne_nil (c := c))
    have hle := le_of_mem_bytes hc (hb ▸ List.mem_cons_self)
    have hbytes : bytes (c :: cs) = b :: (bs ++ bytes cs) := by rw [bytes_cons, hb]; rfl
    rw [Scanning.scanToken, bind_ok (h.advance_byte hbytes), scanBehind_beyond hle, piece_beyond hc]
    exact h.stray (ne_ascii hc (by decide)) hstart

end Scanner.Faces

/-! ## From token to token -/

/-- All items of a scan: its tokens, and its fault if there is one. -/
def Scan.items (scan : Scan) : List (Except Error Token) :=
  scan.tokens.map .ok ++ scan.error.toList.map .error

namespace Scanner

/-- **What a scanner hands out**, call by call.  No call goes wrong; behind the mark of the end and
    behind a fault, there is nothing more to come. -/
inductive Yields : Scanner → Scan → Prop
  | finish {s s' t} : s.next = some (some (.ok t), s') → s'.done = true → Yields s ⟨[t], none⟩
  | token {s s' t tokens error} : s.next = some (some (.ok t), s') → Yields s' ⟨tokens, error⟩ →
      Yields s ⟨t :: tokens, error⟩
  | fault {s s' e} : s.next = some (some (.error e), s') → s'.done = true →
      Yields s ⟨[], some e⟩

section
variable {s : Scanner} {before cs : List Char} {result : Scan}

theorem next_of_done (h : s.done = true) : s.next = some (none, s) := by
  rw [next_eq, if_pos h]

theorem ask_of_done (h : s.done = true) (k : Nat) : s.ask k = some none := by
  induction k with
  | zero => rw [ask, next_of_done h]; rfl
  | succ k ih => rw [ask, next_of_done h]; exact ih

theorem Yields.ask (h : s.Yields result) (k : Nat) : s.ask k = some result.items[k]? := by
  induction h generalizing k with
  | finish hnext hdone | fault hnext hdone =>
    cases k with
    | zero => rw [Scanner.ask, hnext]; rfl
    | succ k => rw [Scanner.ask, hnext]; exact ask_of_done hdone k
  | token hnext _ ih =>
    cases k with
    | zero => rw [Scanner.ask, hnext]; rfl
    | succ k => rw [Scanner.ask, hnext]; exact ih k

theorem drain_eq (s : Scanner) : s.drain = match s.next with
    | none => none
    | some (none, s') => some (⟨[], none⟩, s')
    | some (some (.error e), s') => some (⟨[], some e⟩, s')
    | some (some (.ok t), s') =>
      s'.drain.map fun r => ({ r.1 with tokens := t :: r.1.tokens }, r.2) := by
  rw [drain]
  split <;> next h => rw [h]

theorem Yields.drain (h : s.Yields result) :
    ∃ s', s.drain = some (result, s') ∧ s'.done = true := by
  induction h with
  | @finish s s' t hnext hdone =>
    refine ⟨s', ?_, hdone⟩
    rw [drain_eq, hnext, Option.map_eq_some_iff]
    exact ⟨_, by rw [drain_eq, next_of_done hdone], rfl⟩
  | fault hnext hdone => exact ⟨_, by rw [drain_eq, hnext], hdone⟩
  | token hnext _ ih =>
    obtain ⟨s', hdrain, hdone⟩ := ih
    exact ⟨s', by rw [drain_eq, hnext]; exact Option.map_eq_some_iff.2 ⟨_, hdrain, rfl⟩, hdone⟩

theorem Yields.of_next_eq {s' : Scanner} (hnext : s.next = s'.next) (h : s'.Yields result) :
    s.Yields result := by
  cases h with
  | finish h hdone => exact .finish (hnext.trans h) hdone
  | token h hs => exact .token (hnext.trans h) hs
  | fault h hdone => exact .fault (hnext.trans h) hdone

/-- **A scanner yields the reading of the text that is ahead.** -/
theorem Faces.yields (h : s.Faces before cs) (hdone : s.done = false) :
    s.Yields (scanFrom s.line cs) := by
  induction hn : cs.length using Nat.strongRecOn generalizing s before cs with
  | ind n ih =>
  subst hn
  have hnext := s.next_eq
  rw [if_neg (by rw [hdone]; exact Bool.false_ne_true), h.atEnd] at hnext
  cases cs with
  | nil =>
    rw [scanFrom]
    exact .finish hnext rfl
  | cons c cs =>
    simp only [List.isEmpty_cons, Bool.false_eq_true, if_false] at hnext
    have h₀ : Faces { s with start := s.curr, pending := none } before (c :: cs) := ⟨h.source, h.curr⟩
    have htakes := h₀.scanToken rfl
    have happ := piece_text_append c cs
    have hlt := length_piece_rest_lt c cs
    generalize hp : piece c cs = found at htakes happ hlt
    generalize Scanning.scanToken { s with start := s.curr, pending := none } = outcome
      at htakes hnext
    rw [← happ] at h₀
    cases htakes with
    | @gap text rest =>
      rw [scanFrom_gap hp]
      exact .of_next_eq hnext (ih _ hlt h₀.past hdone rfl)
    | @token kind text rest =>
      rw [scanFrom_token hp]
      have hs := ih _ hlt h₀.past hdone rfl
      exact .token (hnext.trans (congrArg (Option.map _) (h₀.slice? rfl))) hs
    | fault =>
      rw [scanFrom_fault hp]
      exact .fault hnext rfl

end

end Scanner

variable (source : String)

theorem yields_scanFrom : Scanner.Yields { source } (scanFrom 1 source.toList) := by
  have h : Scanner.Faces { source } [] source.toList := ⟨String.ofList_toList.symm, rfl⟩
  exact h.yields rfl

/-- **A text is scanned as it reads**, character by character. -/
theorem scan_eq : scan source = scanFrom 1 source.toList := by
  obtain ⟨s', h, -⟩ := (yields_scanFrom source).drain
  rw [scan, h]
  rfl

theorem scan_scanned : Scanned 1 source.toList (scan source) := by
  rw [scan_eq]
  exact scanFrom_scanned 1 source.toList

/-- **No call for a token goes wrong**, and each gives the next item of the scan. -/
theorem ask_scan (k : Nat) : Scanner.ask k { source } = some (scan source).items[k]? := by
  rw [scan_eq]
  exact (yields_scanFrom source).ask k

end Scriptling
