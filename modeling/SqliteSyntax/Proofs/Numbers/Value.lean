import Mathlib.Algebra.Order.Field.Rat
import Mathlib.Algebra.Order.Field.Power
import Mathlib.Data.List.TakeWhile
import Mathlib.Data.Nat.Cast.Order.Field
import Mathlib.Tactic.Linarith
import Mathlib.Tactic.Ring
import SqliteSyntax.Proofs.Pieces.Numerals

/-! # The value of a numeral

`Numeral.valueOf` reads the text of a numeral as the rational number that it denotes. The text of an
integer denotes that integer (`Numeral.valueOf_integerText`), and the text of a decimal, in either
layout, its coefficient times its power of ten (`Decimal.unsignedValue_text`). How many digits stand
before the point tells between which powers of ten the decimal lies (`Decimal.pointPosition_le_iff`). -/
namespace SqliteSyntax
set_option autoImplicit false

namespace Numeral

/-- The natural number that digits denote; no digits at all denote zero. -/
def digitsValue (cs : List Char) : Nat := Nat.ofDigitChars 10 cs 0

/-- The integer that digits denote after an optional sign. -/
def integerValue : List Char → Int
  | '-' :: ds => -digitsValue ds
  | '+' :: ds => digitsValue ds
  | ds => digitsValue ds

/-- The digits around the point as one number, and a tenth for each digit after the point. -/
def mantissaValue (cs : List Char) : ℚ :=
  let whole := cs.takeWhile (· != '.')
  let fraction := (cs.dropWhile (· != '.')).drop 1
  digitsValue (whole ++ fraction) / 10 ^ fraction.length

/-- The mantissa times the power of ten that the exponent denotes. -/
def unsignedValue (cs : List Char) : ℚ :=
  mantissaValue (cs.takeWhile (! isExponentMark ·)) *
    10 ^ integerValue ((cs.dropWhile (! isExponentMark ·)).drop 1)

/-- The number that the text of a numeral denotes. -/
def valueOf : List Char → ℚ
  | '-' :: cs => -unsignedValue cs
  | '+' :: cs => unsignedValue cs
  | cs => unsignedValue cs

def value (n : Numeral) : ℚ := valueOf n.text.toList

/-! ## Digits -/

@[simp] theorem digitsValue_nil : digitsValue [] = 0 := rfl

@[simp] theorem digitsValue_toDigits (n : Nat) : digitsValue (Nat.toDigits 10 n) = n :=
  Nat.ofDigitChars_ten_toDigits

theorem digitsValue_append (cs ds : List Char) :
    digitsValue (cs ++ ds) = digitsValue cs * 10 ^ ds.length + digitsValue ds := by
  rw [digitsValue, Nat.ofDigitChars_append, Nat.ofDigitChars_eq_ofDigitChars_zero, digitsValue,
    digitsValue]
  ring

@[simp] theorem digitsValue_zeros (n : Nat) : digitsValue (List.replicate n '0') = 0 := by
  rw [digitsValue, Nat.ofDigitChars_replicate_zero]
  simp

/-- Digits do not begin with a sign. -/
theorem dropSign_of_digits {ds : List Char} (h : allDigits ds = true) : dropSign ds = ds := by
  by_cases ne : ds = []
  · subst ne
    rfl
  · have := dropSign_of_mantissa (isMantissa_of_digits h ne) []
    rwa [List.append_nil] at this

theorem integerValue_of_digits {ds : List Char} (h : allDigits ds = true) :
    integerValue ds = digitsValue ds := by
  unfold integerValue
  split
  · exact absurd (dropSign_of_digits h) (by simp [dropSign])
  · exact absurd (dropSign_of_digits h) (by simp [dropSign])
  · rfl

@[simp] theorem integerValue_integerText (n : Int) : integerValue (Decimal.integerText n) = n := by
  unfold Decimal.integerText
  split
  · rw [integerValue, digitsValue_toDigits]
    omega
  · rw [integerValue_of_digits (allDigits_toDigits _), digitsValue_toDigits]
    omega

/-! ## Mantissas and exponents -/

theorem mantissaValue_of_digits {cs : List Char} (h : allDigits cs = true) :
    mantissaValue cs = digitsValue cs := by
  have ne : ∀ c ∈ cs, (c != '.') = true := fun c hc =>
    bne_iff_ne.mpr (isDigit_ne_point (allDigits_iff.mp h c hc))
  have whole : cs.takeWhile (· != '.') = cs := List.takeWhile_eq_self_iff.mpr ne
  have fraction : cs.dropWhile (· != '.') = [] := List.dropWhile_eq_nil_iff.mpr ne
  rw [mantissaValue, whole, fraction]
  simp

theorem mantissaValue_of_point {whole : List Char} (h : allDigits whole = true)
    (fraction : List Char) : mantissaValue (whole ++ '.' :: fraction) =
      digitsValue (whole ++ fraction) / 10 ^ fraction.length := by
  obtain ⟨ht, hd⟩ := takeWhile_whole h fraction
  rw [mantissaValue, ht, hd]
  rfl

theorem unsignedValue_of_mantissa {cs : List Char} (h : isMantissa cs = true) :
    unsignedValue cs = mantissaValue cs := by
  have hm := mantissa_not_mark h
  have taken : cs.takeWhile (! isExponentMark ·) = cs := List.takeWhile_eq_self_iff.mpr hm
  have dropped : cs.dropWhile (! isExponentMark ·) = [] := List.dropWhile_eq_nil_iff.mpr hm
  rw [unsignedValue, taken, dropped]
  simp [integerValue]

theorem unsignedValue_of_exponent {mantissa exponent : List Char} (h : isMantissa mantissa = true) :
    unsignedValue (mantissa ++ 'e' :: exponent) =
      mantissaValue mantissa * 10 ^ integerValue exponent := by
  have hm := mantissa_not_mark h
  rw [unsignedValue, List.takeWhile_append_of_pos hm, List.dropWhile_append_of_pos hm]
  simp [isExponentMark]

/-- A numeral without a sign denotes what it denotes. -/
theorem valueOf_of_isUnsigned {cs : List Char} (h : isUnsigned cs = true) :
    valueOf cs = unsignedValue cs := by
  have bare := dropSign_of_isUnsigned h
  unfold valueOf
  split
  · exact absurd bare (by simp [dropSign])
  · exact absurd bare (by simp [dropSign])
  · rfl

/-- The text of an integer denotes the integer. -/
theorem valueOf_integerText (n : Int) : valueOf (Decimal.integerText n) = n := by
  have digits := allDigits_toDigits n.natAbs
  have mantissa := isMantissa_of_digits digits Nat.toDigits_ne_nil
  have magnitude : unsignedValue (Nat.toDigits 10 n.natAbs) = n.natAbs := by
    rw [unsignedValue_of_mantissa mantissa, mantissaValue_of_digits digits, digitsValue_toDigits]
  unfold Decimal.integerText
  split
  · next negative =>
    rw [valueOf, magnitude, Nat.cast_natAbs, abs_of_neg negative]
    simp
  · next nonneg =>
    rw [valueOf_of_isUnsigned (isUnsigned_of_mantissa mantissa), magnitude, Nat.cast_natAbs,
      abs_of_nonneg (not_lt.mp nonneg)]

end Numeral

/-! ## Decimals -/

namespace Decimal
open Numeral

/-- The number that a decimal is. -/
def value (d : Decimal) : ℚ := d.coefficient * 10 ^ d.exponent

theorem value_nonneg (d : Decimal) : 0 ≤ d.value := by
  rw [value]
  positivity

theorem value_pos_iff (d : Decimal) : 0 < d.value ↔ 0 < d.coefficient := by
  rw [value, mul_pos_iff_of_pos_right (by positivity), Nat.cast_pos]

/-- A decimal that is not zero is at least one step of its grid. -/
theorem ten_zpow_exponent_le {d : Decimal} (pos : 0 < d.value) : 10 ^ d.exponent ≤ d.value := by
  have one : (1 : ℚ) ≤ d.coefficient := by exact_mod_cast d.value_pos_iff.mp pos
  exact le_mul_of_one_le_left (by positivity) one

theorem digits_length_pos (d : Decimal) : 0 < d.digits.length :=
  List.length_pos_iff.mpr d.digits_ne_nil

theorem digitsValue_digits (d : Decimal) : digitsValue d.digits = d.coefficient :=
  digitsValue_toDigits _

/-- A point moves the digits by as many powers of ten as digits stand behind it. -/
theorem value_of_fraction {d : Decimal} {n : Nat} (h : d.exponent = -n) :
    (d.coefficient : ℚ) / 10 ^ n = d.value := by
  rw [value, h, zpow_neg, zpow_natCast, div_eq_mul_inv]

theorem unsignedValue_positional (d : Decimal) : unsignedValue d.positional = d.value := by
  have point : d.pointPosition = d.digits.length + d.exponent := rfl
  rw [unsignedValue_of_mantissa d.isMantissa_positional]
  unfold positional
  simp only []
  split
  · have whole : allDigits ['0'] = true := by decide
    have fraction := mantissaValue_of_point whole
      (List.replicate (-d.pointPosition).toNat '0' ++ d.digits)
    have zero : digitsValue ['0'] = 0 := rfl
    rw [digitsValue_append, digitsValue_append, zero, digitsValue_zeros, digitsValue_digits,
      List.length_append, List.length_replicate, Nat.zero_mul, Nat.zero_mul, Nat.zero_add,
      Nat.zero_add] at fraction
    exact fraction.trans (value_of_fraction (by omega))
  · split
    · rw [mantissaValue_of_point (allDigits_take d.allDigits_digits _), List.take_append_drop,
        digitsValue_digits, List.length_drop]
      exact value_of_fraction (by omega)
    · have whole := allDigits_append d.allDigits_digits
        (allDigits_zeros (d.pointPosition - d.digits.length).toNat)
      have zero : digitsValue ['0'] = 0 := rfl
      have shift : d.exponent = (d.pointPosition - d.digits.length).toNat := by omega
      rw [mantissaValue_of_point whole, digitsValue_append, digitsValue_append, digitsValue_zeros,
        digitsValue_digits, zero, List.length_replicate, value, shift, zpow_natCast]
      simp

theorem unsignedValue_scientific (d : Decimal) : unsignedValue d.scientific = d.value := by
  have ten : (10 : ℚ) ≠ 0 := by norm_num
  have some_digit := d.digits_length_pos
  have point : d.pointPosition = d.digits.length + d.exponent := rfl
  -- the first digit and the others after a point are all digits, shifted
  have mantissa : isMantissa (d.digits.take 1 ++
      if (d.digits.drop 1).isEmpty then [] else '.' :: d.digits.drop 1) = true ∧
      mantissaValue (d.digits.take 1 ++
        if (d.digits.drop 1).isEmpty then [] else '.' :: d.digits.drop 1) =
      d.coefficient / 10 ^ (d.digits.length - 1) := by
    have first := allDigits_take d.allDigits_digits 1
    have ne : d.digits.take 1 ≠ [] := by
      rw [ne_eq, List.take_eq_nil_iff]
      simp [d.digits_ne_nil]
    split
    · next alone =>
      rw [List.isEmpty_iff, List.drop_eq_nil_iff] at alone
      have length : d.digits.length - 1 = 0 := by omega
      have whole : d.digits.take 1 = d.digits := List.take_of_length_le (by omega)
      rw [List.append_nil, mantissaValue_of_digits first, length, whole, digitsValue_digits]
      exact ⟨isMantissa_of_digits d.allDigits_digits d.digits_ne_nil, by simp⟩
    · rw [mantissaValue_of_point first, List.take_append_drop, digitsValue_digits, List.length_drop]
      exact ⟨isMantissa_of_point first (allDigits_drop d.allDigits_digits 1) (.inl ne), rfl⟩
  unfold scientific
  rw [unsignedValue_of_exponent mantissa.1, mantissa.2, integerValue_integerText, value,
    div_mul_eq_mul_div, mul_div_assoc, ← zpow_natCast, ← zpow_sub₀ ten]
  congr 2
  omega

/-- Both layouts denote the decimal. -/
theorem unsignedValue_text (d : Decimal) : unsignedValue d.text = d.value := by
  unfold text
  split
  · exact d.unsignedValue_positional
  · exact d.unsignedValue_scientific

/-! ## The size of a decimal -/

/-- The number is below the power of ten of the place before its first digit. -/
theorem value_lt (d : Decimal) : d.value < 10 ^ d.pointPosition := by
  have digits : d.coefficient < 10 ^ d.digits.length :=
    (Nat.length_toDigits_le_iff (by decide) d.digits_length_pos).mp le_rfl
  have cast : (d.coefficient : ℚ) < 10 ^ d.digits.length := by exact_mod_cast digits
  rw [pointPosition, zpow_add₀ (by norm_num), zpow_natCast]
  exact mul_lt_mul_of_pos_right cast (by positivity)

/-- It is not below the power of ten of its first digit, unless it is zero. -/
theorem le_value {d : Decimal} (pos : 0 < d.value) : 10 ^ (d.pointPosition - 1) ≤ d.value := by
  have len := d.digits_length_pos
  have digits : 10 ^ (d.digits.length - 1) ≤ d.coefficient := by
    rcases Nat.eq_zero_or_pos (d.digits.length - 1) with one | more
    · rw [one, pow_zero]
      exact d.value_pos_iff.mp pos
    · rw [← not_lt, ← Nat.length_toDigits_le_iff (by decide) more]
      exact not_le.mpr (Nat.sub_lt len one_pos)
  have cast : (10 : ℚ) ^ (d.digits.length - 1) ≤ d.coefficient := by exact_mod_cast digits
  have place : d.pointPosition - 1 = (d.digits.length - 1 : Nat) + d.exponent := by
    rw [pointPosition]
    omega
  rw [place, zpow_add₀ (by norm_num), zpow_natCast]
  exact mul_le_mul_of_nonneg_right cast (by positivity)

/-- The place of the point tells which powers of ten are above the number. -/
theorem pointPosition_le_iff {d : Decimal} (pos : 0 < d.value) (k : Int) :
    d.pointPosition ≤ k ↔ d.value < 10 ^ k := by
  constructor
  · intro le
    exact d.value_lt.trans_le (zpow_le_zpow_right₀ (by norm_num) le)
  · intro lt
    have := (zpow_lt_zpow_iff_right₀ (by norm_num)).mp ((le_value pos).trans_lt lt)
    omega

end Decimal
end SqliteSyntax
