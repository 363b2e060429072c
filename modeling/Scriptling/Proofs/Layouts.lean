/-
  Layouts — what is written of a number reads back to it.

  * `Decimal.pattern_shortest`: the shortest decimal of a number is rounded to the number;
  * `Decimal.numeral_positional`: positional notation writes the value of a decimal;
  * `Decimal.order_lt_cap`: the exponents of numbers are read in full;
  * `Layout.read_magnitude`: so both notations are read as the number that they show;
  * `Number.display_reads_back`: printed numbers are read back with the same bits.
-/
import Scriptling.Proofs.Numerals
import Scriptling.Value

namespace Scriptling

namespace Decimal

/-! ## Shortest decimals -/

theorem value_trim (d : Decimal) : d.trim.value = d.value := by
  induction d using trim.induct with
  | case1 d h ih =>
    rw [trim, dif_pos h, ih]
    have hten : d.coefficient = 10 * (d.coefficient / 10) := by omega
    have hcast : (d.coefficient : ℚ) = 10 * ((d.coefficient / 10 : Nat) : ℚ) := by
      exact_mod_cast hten
    unfold value
    rw [hcast, zpow_add_one₀ (by norm_num)]
    ring
  | case2 d h => rw [trim, dif_neg h]

/-- The exact expansion of a number has its value. -/
theorem value_ofUnits (units : Nat) : (ofUnits units).value = (units : ℚ) / unitsPerOne := by
  obtain ⟨k, hk, hunit⟩ := exists_unitsPerOne_eq
  have hexponent : (-1074 : Int) = -k := by rw [hk]; rfl
  have hten : (10 : ℚ) ^ k = 5 ^ k * 2 ^ k := by rw [← mul_pow]; norm_num
  rw [ofUnits, ← hk, hexponent, hunit, value, Nat.pow_eq]
  push_cast
  rw [zpow_neg, zpow_natCast, hten]
  field_simp

/-- A neighbour that is taken reads back. -/
theorem pattern_neighbour {tie : Tie} {pattern : Nat} {e : Int} {d : Decimal}
    (h : neighbour? tie pattern e = some d) : d.pattern = pattern := by
  unfold neighbour? at h
  split at h
  dsimp only at h
  split at h
  · cases h
  · next hbelow _ =>
    cases h
    exact beq_iff_eq.1 hbelow
  · next _ habove =>
    cases h
    exact beq_iff_eq.1 habove
  next hbelow habove =>
  -- both read back; the nearer one is taken, or what the tie says
  split at h
  · cases h
    exact beq_iff_eq.1 hbelow
  split at h
  · cases h
    exact beq_iff_eq.1 habove
  split at h
  · cases h
    exact beq_iff_eq.1 habove
  split at h
  · cases h
    exact beq_iff_eq.1 hbelow
  · cases h
    exact beq_iff_eq.1 habove

/-- **The shortest decimal of a number is rounded to the number.** -/
theorem pattern_shortest (tie : Tie) {pattern : Nat} (h : pattern < infinityPattern) :
    (shortest tie pattern).pattern = pattern := by
  unfold shortest
  split
  · next hzero => rw [hzero]; rfl
  dsimp only
  rw [pattern_congr (value_trim _)]
  cases hfound : (digitCounts pattern).findSome? fun k : Nat =>
      neighbour? tie pattern (leadingExponent (unitsOf pattern) - k) with
  | none => exact pattern_of_units h (value_ofUnits _)
  | some d =>
    obtain ⟨k, -, hk⟩ := List.exists_of_findSome?_eq_some hfound
    exact pattern_neighbour hk

/-! ## Positional notation -/

theorem isDigit_digits (d : Decimal) : ∀ c ∈ d.digits, c.isDigit = true := isDigit_of_mem_toDigits

theorem digits_ne_nil (d : Decimal) : d.digits ≠ [] := Nat.toDigits_ne_nil

theorem valueOfDigits_digits (d : Decimal) : valueOfDigits d.digits = d.coefficient :=
  valueOfDigits_toDigits _

/-- **Positional notation writes the value of a decimal.** -/
theorem numeral_positional (d : Decimal) : Numeral d.positional d.value := by
  have hcoefficient := valueOfDigits_digits d
  have hdigits := isDigit_digits d
  have hne := digits_ne_nil d
  unfold positional
  generalize d.digits = ds at hcoefficient hdigits hne
  split
  · next k hk =>
    have hvalue : (ofDigits (ds ++ List.replicate k '0') [] 0).value = d.value := by
      have hzero := valueOfDigits_zeros k []
      rw [List.append_nil] at hzero
      rw [value_ofDigits, List.append_nil, valueOfDigits_append, List.length_replicate,
        hcoefficient, hzero, value, hk]
      simp [valueOfDigits]
    rw [← hvalue]
    exact .whole (by simp [hne]) (List.forall_mem_append.2 ⟨hdigits, isDigit_of_mem_zeros⟩)
  · next k hk =>
    dsimp only
    have hpadded := valueOfDigits_zeros (k + 2 - ds.length) ds
    -- at least one digit is left in front of the point
    have hlength : k + 2 ≤ (List.replicate (k + 2 - ds.length) '0' ++ ds).length := by
      rw [List.length_append, List.length_replicate]
      omega
    have hall : ∀ c ∈ List.replicate (k + 2 - ds.length) '0' ++ ds, c.isDigit = true :=
      List.forall_mem_append.2 ⟨isDigit_of_mem_zeros, hdigits⟩
    have h := Numeral.point (n := (List.replicate (k + 2 - ds.length) '0' ++ ds).length - (k + 1))
      hall (by omega) (by omega)
    have hvalue : d.value = d.coefficient / 10 ^ (k + 1) := by
      rw [value, hk, zpow_negSucc, div_eq_mul_inv]
    rwa [hpadded, hcoefficient, Nat.sub_sub_self (by omega), ← hvalue] at h

/-! ## Leading digits -/

/-- The order of a decimal tells its size. -/
theorem order_bounds {d : Decimal} (h : d.coefficient ≠ 0) :
    10 ^ d.order ≤ d.value ∧ d.value < 10 ^ (d.order + 1) := by
  have hlength : 0 < d.digits.length := List.length_pos_iff.2 d.digits_ne_nil
  have hle : 10 ^ (d.digits.length - 1) ≤ d.coefficient := by
    rcases Nat.eq_zero_or_pos (d.digits.length - 1) with hone | hmore
    · rw [hone, Nat.pow_zero]
      exact Nat.one_le_iff_ne_zero.2 h
    · refine Nat.not_lt.1 fun hlt => ?_
      have hshorter : d.digits.length ≤ d.digits.length - 1 :=
        (Nat.length_toDigits_le_iff (by decide) hmore).2 hlt
      omega
  have hlt : d.coefficient < 10 ^ d.digits.length :=
    (Nat.length_toDigits_le_iff (by decide) hlength).1 (le_refl _)
  have hscale : (0 : ℚ) < 10 ^ d.exponent := by positivity
  have horder : (10 : ℚ) ^ d.order = 10 ^ (d.digits.length - 1) * 10 ^ d.exponent := by
    rw [order, zpow_add₀ (by norm_num), zpow_natCast, mul_comm]
  have hnext : (10 : ℚ) ^ (d.order + 1) = 10 ^ d.digits.length * 10 ^ d.exponent := by
    rw [zpow_add_one₀ (by norm_num), horder, mul_right_comm, ← pow_succ,
      Nat.sub_add_cancel hlength]
  rw [horder, hnext, value]
  constructor
  · exact mul_le_mul_of_nonneg_right (by exact_mod_cast hle) hscale.le
  · exact mul_lt_mul_of_pos_right (by exact_mod_cast hlt) hscale

/-- **The order of a number is read in full**: it is below the cap of exponents. -/
theorem order_lt_cap {d : Decimal} (hzero : d.pattern ≠ 0)
    (hinfinity : d.pattern < infinityPattern) :
    d.order.natAbs < exponentCap := by
  have hcoefficient : d.coefficient ≠ 0 := fun h => hzero (by rw [pattern, if_pos h])
  obtain ⟨hle, hlt⟩ := order_bounds hcoefficient
  have hhigh : d.order < 400 := by
    by_contra hhigh
    obtain ⟨k, hk⟩ := Int.eq_ofNat_of_zero_le (a := d.order) (by omega)
    rw [hk, zpow_natCast] at hle
    exact absurd (pattern_huge (by omega) hle) hinfinity.ne
  have hlow : -401 < d.order := by
    by_contra hlow
    obtain ⟨k, hk⟩ := Int.eq_ofNat_of_zero_le (a := -(d.order + 1)) (by omega)
    rw [← neg_neg (d.order + 1), hk, zpow_neg, zpow_natCast] at hlt
    rw [← one_div, lt_div_iff₀ (by positivity)] at hlt
    exact hzero (pattern_tiny (by omega) hlt)
  have : exponentCap = 65536 := rfl
  omega

/-- The digits of a mantissa, with a point after the first one, write the coefficient. -/
theorem read_mantissa (l : Layout) {d : Decimal} (h : d.order.natAbs < exponentCap) :
    ∃ c cs d', c.isDigit = true ∧ d.mantissa ++ l.exponent d.order = c :: cs ∧
      Decimal.read (c :: cs) = some d' ∧ d'.value = d.value := by
  have hcoefficient := valueOfDigits_digits d
  have hdigits := isDigit_digits d
  have hexponent := readExponent_exponent l h
  have hstart : ∃ es, l.exponent d.order = 'e' :: es := ⟨_, rfl⟩
  have horder : d.order = d.exponent + (d.digits.length - 1 : Nat) := rfl
  unfold mantissa
  generalize l.exponent d.order = rest at hexponent hstart
  obtain ⟨es, rfl⟩ := hstart
  have hne := digits_ne_nil d
  split
  · next hd => exact absurd hd hne
  · next c hd =>
    rw [hd] at hcoefficient hdigits horder
    have hread := read_whole ('e' :: es) hdigits nofun
      (by rintro _ ⟨⟩; exact ⟨by decide, by decide⟩)
    rw [hexponent] at hread
    have hvalue : (ofDigits [c] [] d.order).value = d.value := by
      rw [value_ofDigits, List.append_nil, hcoefficient, horder]
      simp [value]
    exact ⟨c, _, _, hdigits c (.head _), rfl, hread, hvalue⟩
  · next c cs _ hd =>
    rw [hd] at hcoefficient hdigits horder
    have hfirst : ∀ x ∈ [c], x.isDigit = true := by simpa using hdigits c (.head _)
    have hread := read_fraction ('e' :: es) hfirst nofun
      (fun x hx => hdigits x (.tail _ hx)) (by rintro _ ⟨⟩; decide)
    rw [hexponent] at hread
    have hvalue : (ofDigits [c] cs d.order).value = d.value := by
      rw [value_ofDigits, List.singleton_append, hcoefficient, horder]
      simp [value]
    exact ⟨c, _, _, hdigits c (.head _), rfl, hread, hvalue⟩

end Decimal

/-! ## Layouts -/

/-- **Both notations are read as the number that they show**: it starts with a digit. -/
theorem Layout.read_magnitude {l : Layout} (hl : l.wholeMark = "") {d : Decimal}
    (h : d.order.natAbs < Decimal.exponentCap) :
    (∃ c cs, l.magnitude d = c :: cs ∧ c.isDigit = true) ∧
      Number.readMagnitude (l.magnitude d) = some d.pattern := by
  unfold magnitude
  split
  · have hnone : (if 0 ≤ d.exponent then l.wholeMark.toList else []) = [] := by
      rw [hl]
      split <;> rfl
    rw [hnone, List.append_nil]
    exact ⟨d.numeral_positional.exists_digit, d.numeral_positional.readMagnitude⟩
  · obtain ⟨c, cs, d', hc, htext, hread, hvalue⟩ := Decimal.read_mantissa l h
    rw [htext, Number.readMagnitude_of_isDigit hc, hread, Option.map_some,
      Decimal.pattern_congr hvalue]
    exact ⟨⟨c, cs, rfl, hc⟩, rfl⟩

/-! ## Numbers -/

namespace Number

theorem ofParts_self (n : Number) : ofParts n.isNegative n.magnitude = n := by
  have hbits : n.bits.toNat < 2 * patternsPerSign := n.bits.toNat_lt
  have hsum : (n.magnitude + if n.isNegative then patternsPerSign else 0) = n.bits.toNat := by
    unfold magnitude isNegative
    by_cases hneg : patternsPerSign ≤ n.bits.toNat
    · rw [if_pos (decide_eq_true hneg), Nat.mod_eq_sub_mod hneg, Nat.mod_eq_of_lt (by omega)]
      omega
    · rw [if_neg (by simpa using hneg), Nat.mod_eq_of_lt (Nat.not_le.1 hneg), Nat.add_zero]
  unfold ofParts
  rw [hsum, UInt64.ofNat_toNat]

theorem order_shortest (tie : Tie) {pattern : Nat} (h : pattern < infinityPattern) :
    (Decimal.shortest tie pattern).order.natAbs < Decimal.exponentCap := by
  have hpattern := Decimal.pattern_shortest tie h
  rcases Nat.eq_zero_or_pos pattern with rfl | hpos
  · have hzero : Decimal.shortest tie 0 = ⟨0, 0⟩ := if_pos rfl
    rw [hzero]
    decide
  · exact Decimal.order_lt_cap (by omega) (by omega)

/-- **A finite number is read back** from each layout that marks whole numbers with nothing. -/
theorem read_write {l : Layout} (hl : l.wholeMark = "") {n : Number} (hn : n.isFinite = true) :
    Number.read (l.write n) = some n := by
  have hfinite : n.magnitude < infinityPattern := of_decide_eq_true hn
  obtain ⟨⟨c, cs, htext, hc⟩, hread⟩ := l.read_magnitude hl (order_shortest l.tie hfinite)
  rw [Decimal.pattern_shortest l.tie hfinite, htext] at hread
  have hnan : n.isNaN = false := decide_eq_false hfinite.le.not_gt
  have hinfinite : n.isInfinite = false := beq_eq_false_iff_ne.2 hfinite.ne
  have hself := ofParts_self n
  unfold Layout.write
  simp only [hnan, hinfinite, htext, Number.read, String.toList_ofList, Bool.false_eq_true,
    if_false]
  cases hneg : n.isNegative with
  | true =>
    rw [if_pos rfl, Decimal.splitSign]
    simp only [hread, Option.map_some]
    rw [← hneg, hself]
  | false =>
    rw [if_neg Bool.false_ne_true, Decimal.splitSign_of_isDigit hc]
    simp only [hread, Option.map_some]
    rw [← hneg, hself]

theorem display_of_isNaN {n : Number} (hn : n.isNaN = true) : n.display = "NaN" := if_pos hn

/-- A printed number is read back; the infinities are written as words. -/
theorem read_display {n : Number} (hn : n.isNaN = false) : Number.read n.display = some n := by
  have hle : n.magnitude ≤ infinityPattern := Nat.not_lt.1 (of_decide_eq_false hn)
  rcases Nat.lt_or_eq_of_le hle with hlt | hinfinite
  · exact read_write rfl (decide_eq_true hlt)
  have hisInfinite : n.isInfinite = true := beq_iff_eq.2 hinfinite
  have hdisplay : n.display = if n.isNegative then "-Inf" else "+Inf" := by
    unfold display Layout.write
    rw [if_neg (ne_true_of_eq_false hn), if_pos hisInfinite]
    rfl
  have hself := ofParts_self n
  rw [hinfinite] at hself
  rw [hdisplay, ← hself]
  cases n.isNegative with
  | true => decide +kernel
  | false => decide +kernel

/-- **Printed numbers read back exactly**, with the same bit pattern, and what is no number reads
    back as none; so two numbers that are printed alike are the same. -/
theorem display_reads_back :
    (∀ n : Number, n.isNaN = false → (Value.string n.display).toNumber = .ok n) ∧
    (∀ n : Number, n.isNaN = true →
      ∃ m, (Value.string n.display).toNumber = .ok m ∧ m.isNaN = true) ∧
    ∀ a b : Number, a.isNaN = false → b.isNaN = false → a.display = b.display → a = b := by
  have toNumber {n m : Number} (h : Number.read n.display = some m) :
      (Value.string n.display).toNumber = .ok m := by
    rw [Value.toNumber, h]
  refine ⟨fun n hn => toNumber (read_display hn), fun n hn => ?_, fun a b ha hb hab => ?_⟩
  · have hread : Number.read n.display = some (ofParts false nanPattern) := by
      rw [display_of_isNaN hn]
      decide +kernel
    exact ⟨_, toNumber hread, by decide +kernel⟩
  · have hread := read_display ha
    rw [hab, read_display hb] at hread
    exact (Option.some.inj hread).symm

/-- The least positive number. -/
def least : Number := ⟨1⟩

/-- Zero with a minus sign. -/
def negativeZero : Number := ⟨0x8000000000000000⟩

theorem display_reads_back_least :
    (least.isNaN = false ∧ (Value.string least.display).toNumber = .ok least) ∧
    (negativeZero.isNaN = false ∧
      (Value.string negativeZero.display).toNumber = .ok negativeZero) ∧
    ((Number.ofParts true nanPattern).isNaN = true ∧
      ∃ m, (Value.string (Number.ofParts true nanPattern).display).toNumber = .ok m ∧
        m.isNaN = true) ∧
    least.display = (Number.ofParts false 1).display ∧ least = Number.ofParts false 1 := by
  obtain ⟨hback, hnan, hunique⟩ := display_reads_back
  have hleast : least.isNaN = false := by decide +kernel
  have hzero : negativeZero.isNaN = false := by decide +kernel
  have hnone : (Number.ofParts true nanPattern).isNaN = true := by decide +kernel
  have halike : least.display = (Number.ofParts false 1).display := by decide +kernel
  exact ⟨⟨hleast, hback _ hleast⟩, ⟨hzero, hback _ hzero⟩, ⟨hnone, hnan _ hnone⟩, halike,
    hunique _ _ hleast (by decide +kernel) halike⟩

example : least.display = "5e-324" := by decide +kernel

end Number

end Scriptling
