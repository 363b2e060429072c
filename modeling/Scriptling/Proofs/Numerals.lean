/-
  Numerals — how the texts of numbers are read.

  * `Decimal.read_whole`, `Decimal.read_fraction`: digits, with or without a point, and what may
    follow them;
  * `read_decimal`: every decimal is read, so that no number is invalid;
  * `Decimal.readExponent_exponent`: a written exponent is read back;
  * `Numeral`: the texts that write a value without an exponent; each is read as the number nearest
    to the value, and is a token with that number (`Numeral.readMagnitude`, `Numeral.lexeme`).
-/
import Scriptling.Number.Layout
import Scriptling.Proofs.Lexemes
import Scriptling.Proofs.Rounding

namespace Scriptling

theorem toLower_of_isDigit {c : Char} (h : c.isDigit = true) : c.toLower = c := by
  have bounds : ¬ c.isUpper = true := by
    unfold Char.isDigit at h
    unfold Char.isUpper
    simp [UInt32.le_iff_toNat_le] at h ⊢
    omega
  unfold Char.toLower
  unfold Char.isUpper at bounds
  split
  · next hc => exact absurd (by simpa using hc) bounds
  · rfl

/-! ## Digits and points -/

section
variable {d : Char} {ds es : List Char}

/-- What starts with a digit is no word, but a decimal. -/
theorem Number.readMagnitude_of_isDigit (hd : d.isDigit = true) (cs : List Char) :
    Number.readMagnitude (d :: cs) = (Decimal.read (d :: cs)).map Decimal.pattern := by
  have word (w : String) (hw : w.toList.head?.any Char.isDigit = false) :
      String.ofList ((d :: cs).map Char.toLower) ≠ w := by
    rintro rfl
    simp [toLower_of_isDigit hd, hd] at hw
  have inf := word "inf" (by decide +kernel)
  have infinity := word "infinity" (by decide +kernel)
  have nan := word "nan" (by decide +kernel)
  unfold Number.readMagnitude
  simp only [inf, infinity, nan, decide_false, if_false, Bool.or_self, Bool.false_eq_true]

theorem Decimal.splitSign_of_isDigit (hd : d.isDigit = true) (cs : List Char) :
    Decimal.splitSign (d :: cs) = (false, d :: cs) := by
  unfold Decimal.splitSign
  split
  · next h => cases h; cases hd
  · next h => cases h; cases hd
  · rfl

/-- A text that starts with a digit is read as a decimal. -/
theorem Number.read_of_isDigit (hd : d.isDigit = true) (cs : List Char) :
    Number.read (String.ofList (d :: cs)) =
      (Decimal.read (d :: cs)).map fun x => .ofParts false x.pattern := by
  unfold Number.read
  rw [String.toList_ofList, Decimal.splitSign_of_isDigit hd]
  dsimp only
  rw [Number.readMagnitude_of_isDigit hd, Option.map_map]
  rfl

theorem Decimal.read_whole (rest : List Char) (hds : ∀ c ∈ ds, c.isDigit = true) (hd : ds ≠ [])
    (hrest : ∀ c ∈ rest.head?, c.isDigit = false ∧ c ≠ '.') :
    Decimal.read (ds ++ rest) = (readExponent rest).map (ofDigits ds []) := by
  have hstop : ∀ c ∈ rest.head?, c.isDigit = false := fun c hc => (hrest c hc).1
  rw [Decimal.read, takeWhile_append_stop hds hstop, dropWhile_append_stop hds hstop]
  rcases rest with _ | ⟨c, rest⟩
  · simp [hd]
  · simp [hd, (hrest c rfl).2]

theorem Decimal.read_fraction (rest : List Char) (hds : ∀ c ∈ ds, c.isDigit = true) (hd : ds ≠ [])
    (hes : ∀ c ∈ es, c.isDigit = true) (hrest : ∀ c ∈ rest.head?, c.isDigit = false) :
    Decimal.read (ds ++ '.' :: (es ++ rest)) = (readExponent rest).map (ofDigits ds es) := by
  have hpoint : ∀ c ∈ ('.' :: (es ++ rest)).head?, c.isDigit = false := by simp
  rw [Decimal.read, takeWhile_append_stop hds hpoint, dropWhile_append_stop hds hpoint]
  simp [takeWhile_append_stop hes hrest, dropWhile_append_stop hes hrest, hd]

/-- **Every decimal is read**, as the number that its digits write. -/
theorem read_decimal (hds : ∀ c ∈ ds, c.isDigit = true)
    (hes : ∀ c ∈ es, c.isDigit = true) (hd : ds ≠ []) :
    Number.read (String.ofList ds) = some (.ofDigits ds []) ∧
      Number.read (String.ofList (ds ++ '.' :: es)) = some (.ofDigits ds es) := by
  have hwhole := Decimal.read_whole [] hds hd nofun
  have hfraction := Decimal.read_fraction [] hds hd hes nofun
  rw [List.append_nil] at hwhole hfraction
  obtain ⟨d, ds, rfl⟩ := List.exists_cons_of_ne_nil hd
  have digit := hds d (.head ds)
  constructor
  · rw [Number.read_of_isDigit digit, hwhole]
    rfl
  · rw [List.cons_append, Number.read_of_isDigit digit, ← List.cons_append, hfraction]
    rfl

end

/-! ## Exponents -/

namespace Decimal

theorem valueOfDigits_toDigits (n : Nat) : valueOfDigits (Nat.toDigits 10 n) = n :=
  Nat.ofDigitChars_ten_toDigits

theorem valueOfDigits_zeros (k : Nat) (cs : List Char) :
    valueOfDigits (List.replicate k '0' ++ cs) = valueOfDigits cs := by
  have hzero : valueOfDigits (List.replicate k '0') = 0 := by
    have h : valueOfDigits (List.replicate k '0') = 10 ^ k * 0 := Nat.ofDigitChars_replicate_zero
    rwa [Nat.mul_zero] at h
  rw [valueOfDigits_append, hzero, Nat.zero_mul, Nat.zero_add]

theorem isDigit_of_mem_toDigits {n : Nat} : ∀ c ∈ Nat.toDigits 10 n, c.isDigit = true :=
  fun _ => Nat.isDigit_of_mem_toDigits (by decide) (by decide)

theorem isDigit_of_mem_zeros {k : Nat} : ∀ c ∈ List.replicate k '0', c.isDigit = true :=
  fun _ hc => List.eq_of_mem_replicate hc ▸ rfl

/-- An exponent that stays below the cap is read in full. -/
theorem exponentOfDigits_eq {cs : List Char} (h : valueOfDigits cs < exponentCap) :
    exponentOfDigits cs = valueOfDigits cs := by
  induction cs using List.reverseRecOn with
  | nil => rfl
  | append_singleton cs c ih =>
    have hvalue : valueOfDigits (cs ++ [c]) = 10 * valueOfDigits cs + digit c := by
      simp [valueOfDigits]
    rw [hvalue] at h ⊢
    have hcs : valueOfDigits cs < exponentCap := by omega
    have hread : exponentOfDigits (cs ++ [c]) =
        if exponentOfDigits cs < exponentCap then 10 * exponentOfDigits cs + digit c
        else exponentOfDigits cs := by
      rw [exponentOfDigits, List.foldl_append]
      rfl
    rw [hread, ih hcs, if_pos hcs]

/-- **A written exponent is read back.** -/
theorem readExponent_exponent (l : Layout) {e : Int} (he : e.natAbs < exponentCap) :
    readExponent (l.exponent e) = some e := by
  unfold Layout.exponent
  dsimp only
  generalize hk : l.exponentWidth - (Nat.toDigits 10 e.natAbs).length = k
  have hvalue : valueOfDigits (List.replicate k '0' ++ Nat.toDigits 10 e.natAbs) = e.natAbs := by
    rw [valueOfDigits_zeros, valueOfDigits_toDigits]
  have hread : exponentOfDigits (List.replicate k '0' ++ Nat.toDigits 10 e.natAbs) = e.natAbs := by
    rw [exponentOfDigits_eq (by rwa [hvalue]), hvalue]
  have hdigits : (List.replicate k '0' ++ Nat.toDigits 10 e.natAbs).all Char.isDigit = true :=
    List.all_eq_true.2 (List.forall_mem_append.2 ⟨isDigit_of_mem_zeros, isDigit_of_mem_toDigits⟩)
  have hne : (List.replicate k '0' ++ Nat.toDigits 10 e.natAbs).isEmpty = false := by
    simp [Nat.toDigits_ne_nil]
  unfold readExponent
  by_cases hneg : e < 0
  · simp [hneg, splitSign, hne, hdigits, hread, abs_of_neg hneg]
  · simp [hneg, splitSign, hne, hdigits, hread]
    omega

/-! ## Values -/

theorem value_ofDigits (whole fraction : List Char) (e : Int) :
    (ofDigits whole fraction e).value =
      valueOfDigits (whole ++ fraction) * 10 ^ (e - fraction.length) := by
  rw [ofDigits, value, natOfDigits_eq]

end Decimal

/-- **The texts that write a value without an exponent**: digits, or digits with a point between
    two of them. -/
inductive Numeral : List Char → ℚ → Prop where
  | whole {ds} : ds ≠ [] → (∀ c ∈ ds, c.isDigit = true) →
      Numeral ds (Decimal.ofDigits ds [] 0).value
  | fraction {ds es} : ds ≠ [] → (∀ c ∈ ds, c.isDigit = true) → es ≠ [] →
      (∀ c ∈ es, c.isDigit = true) → Numeral (ds ++ '.' :: es) (Decimal.ofDigits ds es 0).value

namespace Numeral

variable {text : List Char} {x : ℚ}

/-- A point can stand between any two digits. -/
theorem point {ds : List Char} {n : Nat} (hds : ∀ c ∈ ds, c.isDigit = true) (hn : 0 < n)
    (hlt : n < ds.length) : Numeral (ds.take n ++ '.' :: ds.drop n)
      (Decimal.valueOfDigits ds / 10 ^ (ds.length - n)) := by
  have hvalue : (Decimal.ofDigits (ds.take n) (ds.drop n) 0).value =
      Decimal.valueOfDigits ds / 10 ^ (ds.length - n) := by
    rw [Decimal.value_ofDigits, List.take_append_drop, List.length_drop, zero_sub, zpow_neg,
      zpow_natCast, div_eq_mul_inv]
  rw [← hvalue]
  refine .fraction ?_ (fun c hc => hds c (List.mem_of_mem_take hc)) ?_
    fun c hc => hds c (List.mem_of_mem_drop hc)
  · rw [← List.length_pos_iff, List.length_take]
    omega
  · rw [← List.length_pos_iff, List.length_drop]
    omega

theorem exists_digit (h : Numeral text x) : ∃ d cs, text = d :: cs ∧ d.isDigit = true := by
  cases h with
  | @whole ds hd hds | @fraction ds es hd hds =>
    obtain ⟨d, ds, rfl⟩ := List.exists_cons_of_ne_nil hd
    exact ⟨d, _, rfl, hds d (.head ds)⟩

/-- A numeral is read as a decimal of its value. -/
theorem read (h : Numeral text x) : ∃ d, Decimal.read text = some d ∧ d.value = x := by
  cases h with
  | @whole ds hd hds =>
    have h := Decimal.read_whole [] hds hd nofun
    rw [List.append_nil] at h
    exact ⟨_, h, rfl⟩
  | @fraction ds es hd hds he hes =>
    have h := Decimal.read_fraction [] hds hd hes nofun
    rw [List.append_nil] at h
    exact ⟨_, h, rfl⟩

/-- **A numeral is read as the number nearest to its value.** -/
theorem readMagnitude {d : Decimal} (h : Numeral text d.value) :
    Number.readMagnitude text = some d.pattern := by
  obtain ⟨c, cs, rfl, hc⟩ := h.exists_digit
  obtain ⟨d', hread, hvalue⟩ := h.read
  rw [Number.readMagnitude_of_isDigit hc, hread, Option.map_some, Decimal.pattern_congr hvalue]

/-- **A numeral is a token**, with the number nearest to its value. -/
theorem lexeme {d : Decimal} (h : Numeral text d.value) :
    Lexeme (.number (.ofParts false d.pattern)) text := by
  generalize hx : d.value = x at h
  cases h with
  | @whole ds hd hds =>
    obtain ⟨c, ds, rfl⟩ := List.exists_cons_of_ne_nil hd
    rw [List.forall_mem_cons] at hds
    rw [Decimal.pattern_congr hx]
    exact .whole hds.1 hds.2
  | @fraction ds es hd hds he hes =>
    obtain ⟨c, ds, rfl⟩ := List.exists_cons_of_ne_nil hd
    obtain ⟨e, es, rfl⟩ := List.exists_cons_of_ne_nil he
    rw [List.forall_mem_cons] at hds hes
    rw [Decimal.pattern_congr hx]
    exact .fraction hds.1 hds.2 hes.1 hes.2

end Numeral

end Scriptling
