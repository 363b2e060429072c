/-
  Rounding — decimals of the same value are rounded to the same number.

  A decimal is rounded as a ratio of natural numbers, and there are many such ratios, and many
  decimals, of one value.

  * `nearestPattern_congr`: the nearest number depends only on the value of a ratio;
  * `nearestPattern_units`: a number is the nearest one to itself;
  * `nearestPattern_huge`, `nearestPattern_tiny`: what is out of the range of the numbers;
  * `Decimal.value`, `Decimal.pattern_eq`: a decimal is rounded to the number that is nearest to
    its value; the powers of ten that are not computed do not matter.
-/
import Mathlib.Algebra.Order.Field.Power
import Mathlib.Data.Rat.Cast.Order
import Mathlib.Tactic.FieldSimp
import Mathlib.Tactic.Ring
import Mathlib.Tactic.Positivity
import Scriptling.Number.Decimal

namespace Scriptling

/-! ## Quotients -/

theorem roundHalfEven_mul (q : Nat) {den : Nat} (hden : 0 < den) :
    roundHalfEven (q * den) den = q := by
  simp [roundHalfEven, Nat.mul_div_cancel _ hden, hden]

theorem roundHalfEven_scale (num den : Nat) {a : Nat} (ha : 0 < a) :
    roundHalfEven (num * a) (den * a) = roundHalfEven num den := by
  unfold roundHalfEven
  rw [Nat.mul_div_mul_right _ _ ha, Nat.mul_mod_mul_right]
  simp only [← Nat.mul_assoc, Nat.mul_lt_mul_right ha]

theorem div_le_roundHalfEven (num den : Nat) : num / den ≤ roundHalfEven num den := by
  unfold roundHalfEven
  dsimp only
  split
  · exact Nat.le_refl _
  split <;> omega

theorem roundHalfEven_eq_zero {num den : Nat} (h : 2 * num < den) : roundHalfEven num den = 0 := by
  have hlt : num < den := by omega
  simp [roundHalfEven, Nat.div_eq_of_lt hlt, Nat.mod_eq_of_lt hlt, h]

/-! ## The nearest number -/

/-- The exponent of the units is kept a variable, so that the power is not computed. -/
theorem exists_unitsPerOne_eq : ∃ k, k = 1074 ∧ unitsPerOne = 2 ^ k := by
  refine ⟨1074, rfl, ?_⟩
  unfold unitsPerOne
  generalize 1074 = k
  rfl

theorem steps_pos (k : Nat) : 0 < Nat.pow 2 k := Nat.two_pow_pos k

theorem unitsPerOne_pos : 0 < unitsPerOne := by
  obtain ⟨k, -, hk⟩ := exists_unitsPerOne_eq
  rw [hk]
  exact Nat.two_pow_pos k

theorem patternsPerExponent_pos : 0 < patternsPerExponent := steps_pos 52

theorem nearestPattern_scale (num den : Nat) {a : Nat} (ha : 0 < a) :
    nearestPattern (num * a) (den * a) = nearestPattern num den := by
  unfold nearestPattern
  rw [Nat.mul_right_comm num a, Nat.mul_div_mul_right _ _ ha]
  simp only [Nat.mul_right_comm den a, roundHalfEven_scale _ _ ha]

/-- **The nearest number depends on the value of a ratio alone.** -/
theorem nearestPattern_congr {num den num' den' : Nat} (hden : 0 < den) (hden' : 0 < den')
    (h : num * den' = num' * den) : nearestPattern num den = nearestPattern num' den' :=
  calc nearestPattern num den
    _ = nearestPattern (num * den') (den * den') := (nearestPattern_scale _ _ hden').symm
    _ = nearestPattern (num' * den) (den' * den) := by rw [h, Nat.mul_comm den]
    _ = nearestPattern num' den' := nearestPattern_scale _ _ hden

/-- The significand of a number takes fifty-three bits. -/
theorem log2_significand {fraction : Nat} (k : Nat) (hf : fraction < patternsPerExponent) :
    ((patternsPerExponent + fraction) * Nat.pow 2 k).log2 = 52 + k := by
  have hpos : 0 < (patternsPerExponent + fraction) * Nat.pow 2 k :=
    Nat.mul_pos (Nat.add_pos_left patternsPerExponent_pos _) (steps_pos k)
  have hk : 2 ^ (52 + k) = patternsPerExponent * Nat.pow 2 k := Nat.pow_add ..
  rw [Nat.log2_eq_iff hpos.ne', Nat.pow_succ, hk]
  constructor
  · exact Nat.mul_le_mul_right _ (Nat.le_add_right ..)
  · rw [Nat.mul_right_comm]
    exact Nat.mul_lt_mul_of_pos_right (by omega) (steps_pos k)

/-- **A number is the nearest one to itself.** -/
theorem nearestPattern_units {pattern : Nat} (h : pattern < infinityPattern) :
    nearestPattern (unitsOf pattern) unitsPerOne = pattern := by
  have hunit := unitsPerOne_pos
  unfold nearestPattern
  rw [Nat.mul_div_cancel _ hunit]
  -- what is rounded is a whole number of steps, which `rounded` counts
  have counted (k rounded : Nat) (hk : (unitsOf pattern).log2 - 52 = k)
      (hunits : unitsOf pattern = rounded * Nat.pow 2 k)
      (hpattern : k * patternsPerExponent + rounded = pattern) :
      min (((unitsOf pattern).log2 - 52) * patternsPerExponent +
          roundHalfEven (unitsOf pattern * unitsPerOne)
            (unitsPerOne * Nat.pow 2 ((unitsOf pattern).log2 - 52))) infinityPattern =
        pattern := by
    have hstep : 0 < unitsPerOne * Nat.pow 2 k := Nat.mul_pos hunit (steps_pos k)
    rw [hk, hunits, Nat.mul_assoc, Nat.mul_comm (Nat.pow 2 k), roundHalfEven_mul _ hstep, hpattern]
    exact Nat.min_eq_left h.le
  by_cases hsmall : pattern < patternsPerExponent
  · have hunits : unitsOf pattern = pattern := if_pos hsmall
    refine counted 0 pattern ?_ (by rw [hunits]; exact (Nat.mul_one _).symm)
      (by omega)
    rw [hunits]
    rcases Nat.eq_zero_or_pos pattern with rfl | hpos
    · rfl
    · have := (Nat.log2_lt hpos.ne').2 hsmall
      omega
  · have hfraction := Nat.mod_lt pattern patternsPerExponent_pos
    have hexponent : 0 < pattern / patternsPerExponent :=
      Nat.div_pos (Nat.not_lt.1 hsmall) patternsPerExponent_pos
    have hunits : unitsOf pattern = (patternsPerExponent + pattern % patternsPerExponent) *
      Nat.pow 2 (pattern / patternsPerExponent - 1) := if_neg hsmall
    refine counted _ _ ?_ hunits ?_
    · rw [hunits, log2_significand _ hfraction]
      omega
    · have hsplit := Nat.div_add_mod' pattern patternsPerExponent
      obtain ⟨e, he⟩ := Nat.exists_eq_succ_of_ne_zero hexponent.ne'
      rw [he, Nat.succ_mul] at hsplit
      rw [he, Nat.succ_sub_one]
      omega

/-- Beyond the greatest number there is only infinity. -/
theorem nearestPattern_huge {num den k : Nat} (hden : 0 < den) (hk : 1024 ≤ k)
    (h : den * 2 ^ k ≤ num) : nearestPattern num den = infinityPattern := by
  obtain ⟨u, hu, hunit⟩ := exists_unitsPerOne_eq
  have hquotient : 2 ^ (k + u) ≤ num * unitsPerOne / den := by
    rw [Nat.le_div_iff_mul_le hden, Nat.pow_add, hunit, Nat.mul_right_comm, Nat.mul_comm (2 ^ k)]
    exact Nat.mul_le_mul_right _ h
  have hne : num * unitsPerOne / den ≠ 0 := (Nat.lt_of_lt_of_le (Nat.two_pow_pos _) hquotient).ne'
  have hlog := (Nat.le_log2 hne).2 hquotient
  have hself := Nat.log2_self_le hne
  unfold nearestPattern
  generalize (num * unitsPerOne / den).log2 = l at hlog hself ⊢
  -- a full significand is left when all steps have been taken
  have hsignificand : patternsPerExponent ≤
      roundHalfEven (num * unitsPerOne) (den * Nat.pow 2 (l - 52)) := by
    refine Nat.le_trans ?_ (div_le_roundHalfEven _ _)
    rw [Nat.le_div_iff_mul_le (Nat.mul_pos hden (steps_pos _))]
    calc patternsPerExponent * (den * Nat.pow 2 (l - 52))
      _ = 2 ^ l * den := by
        rw [Nat.mul_left_comm, Nat.mul_comm den]
        refine congrArg (· * den) ?_
        rw [patternsPerExponent, Nat.pow_eq, Nat.pow_eq, ← Nat.pow_add,
          Nat.add_sub_cancel' (by omega)]
      _ ≤ num * unitsPerOne / den * den := Nat.mul_le_mul_right _ hself
      _ ≤ num * unitsPerOne := Nat.div_mul_le_self _ _
  refine Nat.min_eq_right ?_
  calc infinityPattern
    _ = 2046 * patternsPerExponent + patternsPerExponent := Nat.succ_mul 2046 _
    _ ≤ (l - 52) * patternsPerExponent + _ :=
      Nat.add_le_add (Nat.mul_le_mul_right _ (by omega)) hsignificand

/-- Below half of the least number there is only zero. -/
theorem nearestPattern_tiny {num den k : Nat} (hk : 1075 ≤ k) (h : num * 2 ^ k < den) :
    nearestPattern num den = 0 := by
  obtain ⟨u, hu, hunit⟩ := exists_unitsPerOne_eq
  have hhalf : 2 * (num * unitsPerOne) < den := by
    refine Nat.lt_of_le_of_lt ?_ h
    rw [hunit, Nat.mul_left_comm, ← Nat.pow_succ']
    exact Nat.mul_le_mul_left _ (Nat.pow_le_pow_right Nat.two_pos (by omega))
  have hquotient : num * unitsPerOne / den = 0 := Nat.div_eq_of_lt (by omega)
  unfold nearestPattern
  rw [hquotient]
  show min (0 * patternsPerExponent + roundHalfEven (num * unitsPerOne) (den * 1)) _ = 0
  rw [Nat.mul_one, roundHalfEven_eq_zero hhalf, Nat.zero_mul]
  exact Nat.zero_min _

/-! ## Decimals -/

namespace Decimal

/-- The value of a decimal. -/
def value (d : Decimal) : ℚ := d.coefficient * 10 ^ d.exponent

theorem two_pow_le_ten_pow {k l : Nat} (h : l ≤ 3 * k) : 2 ^ l ≤ Nat.pow 10 k :=
  calc 2 ^ l
    _ ≤ 2 ^ (3 * k) := Nat.pow_le_pow_right Nat.two_pos h
    _ = (2 ^ 3) ^ k := Nat.pow_mul ..
    _ ≤ 10 ^ k := Nat.pow_le_pow_left (by decide) k

/-- **A decimal is rounded to the number nearest to its value.** -/
theorem pattern_eq {d : Decimal} {num den : Nat} (hden : 0 < den)
    (h : d.value = (num : ℚ) / den) : d.pattern = nearestPattern num den := by
  have ratio (num' den' : Nat) (hden' : 0 < den') (h' : d.value = (num' : ℚ) / den') :
      nearestPattern num' den' = nearestPattern num den := by
    refine nearestPattern_congr hden' hden ?_
    have heq := h'.symm.trans h
    rw [div_eq_div_iff (by positivity) (by positivity)] at heq
    exact_mod_cast heq
  obtain ⟨c, e⟩ := d
  unfold pattern
  dsimp only
  split
  · next hc =>
    subst hc
    rw [← ratio 0 1 Nat.one_pos (by simp [value])]
    exact (nearestPattern_tiny (le_refl _) (by rw [Nat.zero_mul]; exact Nat.one_pos)).symm
  next hc =>
  cases e with
  | ofNat k =>
    have hvalue := ratio (c * Nat.pow 10 k) 1 Nat.one_pos (by simp [value])
    dsimp only
    split
    · next hk =>
      rw [← hvalue]
      refine (nearestPattern_huge Nat.one_pos (le_refl _) ?_).symm
      rw [Nat.one_mul]
      exact Nat.le_trans (two_pow_le_ten_pow (by omega))
        (Nat.le_mul_of_pos_left _ (Nat.pos_of_ne_zero hc))
    · exact hvalue
  | negSucc k =>
    have hvalue := ratio c (Nat.pow 10 (k + 1)) (Nat.pow_pos (by decide))
      (by simp [value, zpow_negSucc, div_eq_mul_inv])
    dsimp only
    split
    · next hk =>
      rw [← hvalue]
      obtain ⟨l, hl⟩ : ∃ l, l = 1075 := ⟨_, rfl⟩
      refine (nearestPattern_tiny hl.ge ?_).symm
      calc c * 2 ^ l
        _ < 2 ^ (c.log2 + 1) * 2 ^ l :=
          Nat.mul_lt_mul_of_pos_right Nat.lt_log2_self (Nat.two_pow_pos l)
        _ = 2 ^ (c.log2 + 1 + l) := (Nat.pow_add ..).symm
        _ ≤ Nat.pow 10 (k + 1) := two_pow_le_ten_pow (by omega)
    · exact hvalue

theorem exists_ratio (d : Decimal) : ∃ num den : Nat, 0 < den ∧ d.value = (num : ℚ) / den := by
  have hpos : 0 ≤ d.value := by unfold value; positivity
  have hnum : ((d.value.num.toNat : Nat) : ℤ) = d.value.num :=
    Int.toNat_of_nonneg (Rat.num_nonneg.2 hpos)
  refine ⟨d.value.num.toNat, d.value.den, d.value.den_pos, ?_⟩
  rw [← Int.cast_natCast, hnum, Rat.num_div_den]

/-- Decimals of one value are rounded to one number. -/
theorem pattern_congr {d d' : Decimal} (h : d.value = d'.value) : d.pattern = d'.pattern := by
  obtain ⟨num, den, hden, hvalue⟩ := d.exists_ratio
  rw [pattern_eq hden hvalue, pattern_eq hden (h.symm.trans hvalue)]

/-- No decimal is rounded to what stands for no number. -/
theorem pattern_le (d : Decimal) : d.pattern ≤ infinityPattern := by
  obtain ⟨num, den, hden, hvalue⟩ := d.exists_ratio
  rw [pattern_eq hden hvalue]
  exact Nat.min_le_right _ _

/-- A decimal that is too great for a number. -/
theorem pattern_huge {d : Decimal} {k : Nat} (hk : 400 ≤ k) (h : 10 ^ k ≤ d.value) :
    d.pattern = infinityPattern := by
  obtain ⟨num, den, hden, hvalue⟩ := d.exists_ratio
  rw [hvalue, le_div_iff₀ (by positivity)] at h
  have hnum : 10 ^ k * den ≤ num := by exact_mod_cast h
  rw [pattern_eq hden hvalue]
  refine nearestPattern_huge (k := 3 * k) hden (by omega) ?_
  rw [Nat.mul_comm]
  exact Nat.le_trans (Nat.mul_le_mul_right _ (two_pow_le_ten_pow (le_refl _))) hnum

/-- A decimal that is too small for a number other than zero. -/
theorem pattern_tiny {d : Decimal} {k : Nat} (hk : 400 ≤ k) (h : d.value * 10 ^ k < 1) :
    d.pattern = 0 := by
  obtain ⟨num, den, hden, hvalue⟩ := d.exists_ratio
  rw [hvalue, div_mul_eq_mul_div, div_lt_one (by positivity)] at h
  have hnum : num * 10 ^ k < den := by exact_mod_cast h
  rw [pattern_eq hden hvalue]
  refine nearestPattern_tiny (k := 3 * k) (by omega) ?_
  exact Nat.lt_of_le_of_lt (Nat.mul_le_mul_left _ (two_pow_le_ten_pow (le_refl _))) hnum

/-- A decimal that is a number is rounded to it. -/
theorem pattern_of_units {d : Decimal} {pattern : Nat} (hp : pattern < infinityPattern)
    (h : d.value = (unitsOf pattern : ℚ) / unitsPerOne) : d.pattern = pattern := by
  rw [pattern_eq unitsPerOne_pos h, nearestPattern_units hp]

end Decimal

end Scriptling
