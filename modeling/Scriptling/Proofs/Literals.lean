/-
  Literals — a number literal that is printed is scanned as the number that it shows.

  * `Lexeme.scan_ofList`: a token that is the whole text;
  * `Number.Carried`: the numbers that tokens hold, which have no minus sign;
  * `Number.writtenAs_exactWhole`, `Number.writtenAs_plain`: the two notations of literals, the
    exact digits of a whole number and the shortest decimal without an exponent;
  * `Number.literals_scan_back`: the literals of token lists and of listings are scanned as one
    token with the number.
-/
import Scriptling.Proofs.Layouts
import Scriptling.Proofs.Scanning
import Scriptling.Syntax.Listing

namespace Scriptling

/-- A token that is the whole text is scanned as that token. -/
theorem Lexeme.scan_ofList {kind : TokenKind} {text : List Char} (h : Lexeme kind text) :
    scan (String.ofList text) =
      ⟨[⟨kind, String.ofList text, 1 + lineBreaks text⟩,
        ⟨.endOfFile, "", 1 + lineBreaks text⟩], none⟩ := by
  obtain ⟨c, cs, rfl⟩ := List.exists_cons_of_ne_nil h.ne_nil
  have hpiece : piece c (cs ++ []) = _ := h.piece_append nofun
  rw [List.append_nil] at hpiece
  rw [scan_eq, String.toList_ofList, scanFrom_token hpiece, scanFrom]

theorem Numeral.lineBreaks_eq {text : List Char} {x : ℚ} (h : Numeral text x) :
    lineBreaks text = 0 := by
  have hdigits {ds : List Char} (hds : ∀ c ∈ ds, c.isDigit = true) : '\n' ∉ ds := fun hmem =>
    absurd (hds _ hmem) (by decide)
  refine List.count_eq_zero.2 ?_
  cases h with
  | whole _ hds => exact hdigits hds
  | fraction _ hds _ hes => simp [hdigits hds, hdigits hes]

namespace Number

/-! ## The numbers of tokens -/

/-- A number that a token of some program text holds. -/
def Carried (n : Number) : Prop := ∃ source, ∃ t ∈ (scan source).tokens, t.kind = .number n

/-- What digits come to has the magnitude of the decimal, and no sign. -/
theorem toNat_ofDigits (whole fraction : List Char) :
    (ofDigits whole fraction).bits.toNat = (Decimal.ofDigits whole fraction 0).pattern := by
  have hle := (Decimal.ofDigits whole fraction 0).pattern_le
  have hlt : infinityPattern < 2 ^ 64 := by decide
  unfold ofDigits ofParts
  generalize (Decimal.ofDigits whole fraction 0).pattern = pattern at hle
  rw [if_neg Bool.false_ne_true, Nat.add_zero, UInt64.toNat_ofNat', Nat.mod_eq_of_lt (by omega)]

/-- The digits of a token have no sign: a minus is a token of its own. -/
theorem isNegative_of_lexeme {n : Number} {text : List Char} (h : Lexeme (.number n) text) :
    n.isNegative = false := by
  obtain ⟨whole, fraction, rfl⟩ := h.spelt
  have hle := (Decimal.ofDigits whole fraction 0).pattern_le
  have hlt : infinityPattern < patternsPerSign := by decide
  rw [isNegative, toNat_ofDigits]
  exact decide_eq_false (by omega)

theorem magnitude_le_of_lexeme {n : Number} {text : List Char} (h : Lexeme (.number n) text) :
    n.magnitude ≤ infinityPattern := by
  obtain ⟨whole, fraction, rfl⟩ := h.spelt
  rw [magnitude, toNat_ofDigits]
  exact (Nat.mod_le _ _).trans (Decimal.ofDigits whole fraction 0).pattern_le

theorem isNegative_of_carried {n : Number} (h : n.Carried) : n.isNegative = false := by
  obtain ⟨source, t, ht, hkind⟩ := h
  obtain ⟨front, hfront, hscan⟩ := (scan_scanned source).ends
  obtain ⟨line, hs⟩ | ⟨line, fault, hs⟩ := hscan
  · rw [hs, List.mem_append, List.mem_singleton] at ht
    rcases ht with ht | rfl
    · exact isNegative_of_lexeme (hkind ▸ hfront t ht)
    · cases hkind
  · rw [hs] at ht
    exact isNegative_of_lexeme (hkind ▸ hfront t ht)

/-! ## Notations -/

variable {n : Number}

/-- **A text writes a number** without its sign: the number is the nearest one to the value of the
    text. -/
def WrittenAs (n : Number) (text : String) : Prop :=
  ∃ d : Decimal, Numeral text.toList d.value ∧ d.pattern = n.magnitude

/-- What writes a number that has no minus sign is scanned as the number. -/
theorem WrittenAs.scan {text : String} (h : n.WrittenAs text) (hsign : n.isNegative = false) :
    scan text = ⟨[⟨.number n, text, 1⟩, ⟨.endOfFile, "", 1⟩], none⟩ := by
  obtain ⟨d, hnumeral, hpattern⟩ := h
  have hself := ofParts_self n
  rw [hsign, ← hpattern] at hself
  have hscan := hnumeral.lexeme.scan_ofList
  rwa [hnumeral.lineBreaks_eq, hself, String.ofList_toList] at hscan

/-- The exact digits of a whole number, with one decimal. -/
theorem writtenAs_exactWhole (hsign : n.isNegative = false) (hwhole : n.isWhole = true) :
    n.WrittenAs n.exactWhole := by
  obtain ⟨hfinite, hunits⟩ := Bool.and_eq_true_iff.1 hwhole
  have hvalue : (Decimal.ofDigits (Nat.toDigits 10 n.whole) ['0'] 0).value = n.whole := by
    have hzero : Decimal.valueOfDigits ['0'] = 0 := rfl
    rw [Decimal.value_ofDigits, Decimal.valueOfDigits_append, Decimal.valueOfDigits_toDigits, hzero]
    simp
  have hmul : n.whole * unitsPerOne = unitsOf n.magnitude :=
    Nat.div_mul_cancel (Nat.dvd_of_mod_eq_zero (beq_iff_eq.1 hunits))
  refine ⟨.ofDigits (Nat.toDigits 10 n.whole) ['0'] 0, ?_,
    Decimal.pattern_of_units (of_decide_eq_true hfinite) ?_⟩
  · rw [exactWhole, hsign, String.toList_ofList]
    exact .fraction Nat.toDigits_ne_nil Decimal.isDigit_of_mem_toDigits nofun (by simp)
  · rw [hvalue, eq_div_iff (by exact_mod_cast unitsPerOne_pos.ne')]
    exact_mod_cast hmul

/-- The shortest decimal of a number, without an exponent. -/
theorem writtenAs_plain (hsign : n.isNegative = false) (hfinite : n.isFinite = true) :
    n.WrittenAs (Layout.plain.write n) := by
  have hlt : n.magnitude < infinityPattern := of_decide_eq_true hfinite
  have hnan : n.isNaN = false := decide_eq_false hlt.le.not_gt
  have hinfinite : n.isInfinite = false := beq_eq_false_iff_ne.2 hlt.ne
  have hwrite : (Layout.plain.write n).toList = (Decimal.shortest .up n.magnitude).positional := by
    simp [Layout.write, Layout.magnitude, Layout.plain, hnan, hinfinite, hsign]
  refine ⟨_, ?_, Decimal.pattern_shortest .up hlt⟩
  rw [hwrite]
  exact Decimal.numeral_positional _

/-! ## Literals -/

/-- The texts that are printed for a number literal: in a token list, and in the listing of the
    syntax tree. -/
def printedLiterals (n : Number) : List String :=
  [(TokenKind.number n).literal, (Expr.literal (.number n)).toSexp.text]

theorem writtenAs_literal (hsign : n.isNegative = false) (hfinite : n.isFinite = true) :
    n.WrittenAs n.literal := by
  unfold literal
  by_cases h : (n.isWhole && n.whole < Nat.pow 2 63) = true
  · rw [if_pos h]
    exact writtenAs_exactWhole hsign (Bool.and_eq_true_iff.1 h).1
  · rw [if_neg h]
    exact writtenAs_plain hsign hfinite

theorem writtenAs_listing (hsign : n.isNegative = false) (hfinite : n.isFinite = true) :
    n.WrittenAs n.listing := by
  unfold listing
  by_cases h : n.isWhole = true
  · rw [if_pos h]
    exact writtenAs_exactWhole hsign h
  · rw [if_neg h]
    exact writtenAs_plain hsign hfinite

theorem writtenAs_printedLiterals (hsign : n.isNegative = false) (hfinite : n.isFinite = true) :
    ∀ text ∈ n.printedLiterals, n.WrittenAs text := by
  have hatom : (Expr.literal (.number n)).toSexp.text = n.listing := by
    unfold Expr.toSexp Sexp.text Sexp.write Sexp.writeOnto
    rw [List.append_nil, String.ofList_toList]
    rfl
  refine List.forall_mem_cons.2 ⟨writtenAs_literal hsign hfinite, List.forall_mem_singleton.2 ?_⟩
  rw [hatom]
  exact writtenAs_listing hsign hfinite

/-- **Printed number literals are scanned as the numbers that they show.**  The finite numbers that
    tokens hold are those without a minus sign; wherever such a number is printed as a literal, the
    text is a single token with the number. -/
theorem literals_scan_back {n : Number} (hfinite : n.isFinite = true) :
    (n.Carried ↔ n.isNegative = false) ∧
      (n.Carried → ∀ text ∈ n.printedLiterals,
        scan text = ⟨[⟨.number n, text, 1⟩, ⟨.endOfFile, "", 1⟩], none⟩) := by
  have printed (hsign : n.isNegative = false) (text : String) (h : text ∈ n.printedLiterals) :=
    (writtenAs_printedLiterals hsign hfinite text h).scan hsign
  refine ⟨⟨isNegative_of_carried, fun hsign => ?_⟩, fun h => printed (isNegative_of_carried h)⟩
  refine ⟨(TokenKind.number n).literal, ⟨.number n, (TokenKind.number n).literal, 1⟩, ?_, rfl⟩
  rw [printed hsign _ (.head _)]
  exact .head _

/-- The least whole number that token lists do not write exactly, `2 ^ 63`. -/
def nextAfterExact : Number := ⟨0x43e0000000000000⟩

theorem literals_scan_back_nextAfterExact :
    nextAfterExact.isFinite = true ∧ nextAfterExact.Carried ∧
      nextAfterExact.printedLiterals = ["9223372036854776000", "9223372036854775808.0"] ∧
      ∀ text ∈ nextAfterExact.printedLiterals,
        scan text = ⟨[⟨.number nextAfterExact, text, 1⟩, ⟨.endOfFile, "", 1⟩], none⟩ := by
  have hfinite : nextAfterExact.isFinite = true := by decide +kernel
  obtain ⟨hcarried, hback⟩ := literals_scan_back hfinite
  have hsource : nextAfterExact.Carried := hcarried.2 (by decide +kernel)
  exact ⟨hfinite, hsource, by decide +kernel, hback hsource⟩

end Number

end Scriptling
