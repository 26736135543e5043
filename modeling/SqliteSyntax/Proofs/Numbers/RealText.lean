import SqliteSyntax.Proofs.Numbers.Shortest

/-! # The text of a real

The text of a real literal is a numeral, tells itself apart from the text of an integer, and stands for
that real and no other (`Literal.real_standsFor`). Its digits are as few as digits that do so can be,
and the layout follows the size of the real. -/
namespace SqliteSyntax
set_option autoImplicit false

open Binary64

/-- The text of a numeral stands for a real: the number that it denotes rounds to the magnitude, and the
sign is the one that is written, which zero has too. -/
structure Numeral.StandsFor (cs : List Char) (bits : UInt64) : Prop where
  number : IsNumber bits
  sign : Binary64.isNegative bits = true ↔ cs.head? = some '-'
  rounds : RoundsTo |valueOf cs| bits

/-- A text stands for one real at most. -/
theorem Numeral.StandsFor.unique {cs : List Char} {a b : UInt64} (ha : StandsFor cs a)
    (hb : StandsFor cs b) : a = b :=
  eq_of_rank (Bool.eq_iff_iff.mpr (ha.sign.trans hb.sign.symm))
    (ha.rounds.unique hb.rounds ha.number hb.number)

/-! ## Layouts -/

namespace Decimal

theorem point_mem_positional (d : Decimal) : '.' ∈ d.positional := by
  unfold positional
  simp only []
  split
  · simp
  · split <;> simp

theorem mark_not_mem_positional (d : Decimal) : 'e' ∉ d.positional := fun h =>
  absurd (Numeral.mantissa_not_mark d.isMantissa_positional 'e' h) (by decide)

theorem mark_mem_scientific (d : Decimal) : 'e' ∈ d.scientific := by
  simp [scientific]

theorem mark_mem_text_iff (d : Decimal) :
    'e' ∈ d.text ↔ ¬ (-3 ≤ d.pointPosition ∧ d.pointPosition ≤ 16) := by
  unfold text
  split
  · next h => simp [d.mark_not_mem_positional, h]
  · next h => simp [d.mark_mem_scientific, h]

theorem point_or_mark_mem_text (d : Decimal) : '.' ∈ d.text ∨ 'e' ∈ d.text := by
  unfold text
  split
  · exact .inl d.point_mem_positional
  · exact .inr d.mark_mem_scientific

/-- The text of an integer has neither a point nor an exponent mark. -/
theorem not_mem_integerText {c : Char} (digit : c.isDigit = false) (sign : c ≠ '-') (n : Int) :
    c ∉ integerText n := by
  have digits : c ∉ Nat.toDigits 10 n.natAbs := fun h =>
    Bool.false_ne_true (digit.symm.trans (isDigit_of_mem_toDigits h))
  unfold integerText
  split <;> simp [digits, sign]

/-- A decimal that is not zero is written with an exponent if it is small or large. -/
theorem mark_mem_text_iff_of_pos {d : Decimal} (pos : 0 < d.value) :
    'e' ∈ d.text ↔ d.value < 10 ^ (-4 : Int) ∨ ¬ d.value < 10 ^ (16 : Int) := by
  rw [mark_mem_text_iff, ← pointPosition_le_iff pos, ← pointPosition_le_iff pos]
  omega

end Decimal

/-! ## The decimal of a magnitude -/

namespace Binary64

/-- The decimal that is written for a magnitude. -/
def shown (bits : UInt64) : Decimal :=
  if mantissa bits = 0 then ⟨0, 0⟩ else Shortest.decimal bits

theorem magnitudeText_eq (bits : UInt64) : magnitudeText bits = (shown bits).text := by
  unfold magnitudeText shown
  split <;> rfl

theorem magnitude_eq_zero_iff (bits : UInt64) : magnitude bits = 0 ↔ mantissa bits = 0 := by
  rw [magnitude, mul_eq_zero, or_iff_left (by positivity), Nat.cast_eq_zero]

theorem roundsTo_shown (bits : UInt64) : RoundsTo (shown bits).value bits := by
  unfold shown
  split
  · next zero =>
    have value : Decimal.value ⟨0, 0⟩ = magnitude bits := by
      rw [(magnitude_eq_zero_iff bits).mpr zero, Decimal.value, Nat.cast_zero, zero_mul]
    exact value ▸ roundsTo_magnitude bits
  · next ne => exact Shortest.roundsTo_decimal ne

theorem shown_digits_length_le {bits : UInt64} (finite : isFinite bits = true) {d : Decimal}
    (h : RoundsTo d.value bits) : (shown bits).digits.length ≤ d.digits.length := by
  unfold shown
  split
  · exact d.digits_length_pos
  · next ne => exact Shortest.digits_length_le finite ne h

/-- Ten to the minus fourth power lies between two magnitudes and rounds to the upper one. -/
theorem ten_thousandth : IsNumber 0x3F1A36E2EB1C432D ∧
    RoundsTo (10 ^ (-4 : Int)) 0x3F1A36E2EB1C432D ∧
    (10 : ℚ) ^ (-4 : Int) ≤ magnitude 0x3F1A36E2EB1C432D := by
  have mantissa : mantissa 0x3F1A36E2EB1C432D = 7378697629483821 := by decide
  have exponent : exponent 0x3F1A36E2EB1C432D = -66 := by decide
  have quarters : lowerQuarters 0x3F1A36E2EB1C432D = 2 := by decide
  refine ⟨fun h => absurd h (by decide), (inInterval_of_lt ?_ ?_).roundsTo, ?_⟩
  · rw [mantissa, exponent, quarters]
    norm_num
  · rw [mantissa, exponent]
    norm_num
  · rw [magnitude, mantissa, exponent]
    norm_num

/-- Ten to the sixteenth power is a magnitude. -/
theorem ten_quadrillions : IsNumber 0x4341C37937E08000 ∧
    magnitude 0x4341C37937E08000 = 10 ^ (16 : Int) := by
  have mantissa : mantissa 0x4341C37937E08000 = 5000000000000000 := by decide
  have exponent : exponent 0x4341C37937E08000 = 1 := by decide
  refine ⟨fun h => absurd h (by decide), ?_⟩
  rw [magnitude, mantissa, exponent]
  norm_num

/-- Zero and the magnitudes from `10 ^ -4` up to `10 ^ 16` are written without an exponent. -/
theorem mark_mem_shown_iff {bits : UInt64} (finite : isFinite bits = true) :
    'e' ∈ (shown bits).text ↔ ¬ (magnitude bits = 0 ∨
      10 ^ (-4 : Int) ≤ magnitude bits ∧ magnitude bits < 10 ^ (16 : Int)) := by
  rw [magnitude_eq_zero_iff]
  unfold shown
  split
  · next zero =>
    have plain : 'e' ∉ Decimal.text ⟨0, 0⟩ := by decide
    simp [zero, plain]
  · next ne =>
    obtain ⟨lowNumber, lowRounds, lowUp⟩ := ten_thousandth
    obtain ⟨highNumber, high⟩ := ten_quadrillions
    rw [Decimal.mark_mem_text_iff_of_pos (Shortest.decimal_pos ne),
      Shortest.decimal_lt_iff finite ne lowNumber lowRounds lowUp,
      Shortest.decimal_lt_iff finite ne highNumber (high ▸ roundsTo_magnitude _) high.ge]
    simp only [ne, false_or, not_and_or, not_le]

end Binary64

/-! ## The text of a literal -/

namespace FiniteReal

/-- The text is that of the decimal, after a minus sign if the real has one. -/
theorem text_toList (r : FiniteReal) :
    r.text.toList = if r.isNegative then '-' :: (shown r.bits).text else (shown r.bits).text := by
  rw [text, String.toList_ofList, magnitudeText_eq]

theorem text_head (r : FiniteReal) : r.text.toList.head? = some '-' ↔ r.isNegative = true := by
  rw [text_toList]
  split
  · next negative => simp [negative]
  · next positive =>
    obtain ⟨c, rest, chars, minus, -⟩ := head_of_isUnsigned (shown r.bits).isUnsigned_text
    simp [chars, minus, positive]

theorem abs_valueOf_text (r : FiniteReal) :
    |Numeral.valueOf r.text.toList| = (shown r.bits).value := by
  rw [text_toList]
  split
  · rw [Numeral.valueOf, abs_neg, Decimal.unsignedValue_text, abs_of_nonneg (Decimal.value_nonneg _)]
  · rw [Numeral.valueOf_of_isUnsigned (Decimal.isUnsigned_text _), Decimal.unsignedValue_text,
      abs_of_nonneg (Decimal.value_nonneg _)]

theorem standsFor_text (r : FiniteReal) : Numeral.StandsFor r.text.toList r.bits where
  number := (isNumber_iff _).mpr ((isFinite_iff _).mp r.isFinite).le
  sign := r.text_head.symm
  rounds := r.abs_valueOf_text ▸ roundsTo_shown r.bits

theorem mem_text_iff (r : FiniteReal) {c : Char} (ne : c ≠ '-') :
    c ∈ r.text.toList ↔ c ∈ (shown r.bits).text := by
  rw [text_toList]
  split <;> simp [ne]

end FiniteReal

namespace Literal

/-- The text of a real literal is a numeral with a point or an exponent mark, thus not the text of an
integer, begins with a minus sign exactly if the sign bit is set, and stands for the bits of the literal
and no others, so that different reals have different texts. It has an exponent mark unless the real is
zero or from `10 ^ -4` up to `10 ^ 16`, and no decimal that rounds to the real has fewer digits. -/
theorem real_standsFor (r : FiniteReal) :
    Numeral.isWritten (Literal.real r).sql.toList = true ∧
    ('.' ∈ (Literal.real r).sql.toList ∨ 'e' ∈ (Literal.real r).sql.toList) ∧
    (∀ n, (Literal.integer n).sql ≠ (Literal.real r).sql) ∧
    ((Literal.real r).sql.toList.head? = some '-' ↔ isNegative r.bits = true) ∧
    (∀ bits, Numeral.StandsFor (Literal.real r).sql.toList bits ↔ bits = r.bits) ∧
    (∀ s, (Literal.real s).sql = (Literal.real r).sql ↔ s = r) ∧
    ('e' ∈ (Literal.real r).sql.toList ↔ ¬ (magnitude r.bits = 0 ∨
      10 ^ (-4 : Int) ≤ magnitude r.bits ∧ magnitude r.bits < 10 ^ (16 : Int))) ∧
    ∃ d : Decimal, (Literal.real r).sql.toList = (if isNegative r.bits then ['-'] else []) ++ d.text ∧
      |Numeral.valueOf (Literal.real r).sql.toList| = d.value ∧
      ∀ other : Decimal, RoundsTo other.value r.bits → d.digits.length ≤ other.digits.length := by
  rw [sql_real r]
  have point : '.' ∈ r.text.toList ∨ 'e' ∈ r.text.toList := by
    rw [r.mem_text_iff (by decide), r.mem_text_iff (by decide)]
    exact Decimal.point_or_mark_mem_text _
  refine ⟨r.isWritten_text, point, fun n same => ?_, r.text_head, fun bits => ?_, fun s => ?_, ?_,
    shown r.bits, ?_, r.abs_valueOf_text, fun other => shown_digits_length_le r.isFinite⟩
  · rw [sql_integer] at same
    rw [← same, String.toList_ofList] at point
    exact point.elim (Decimal.not_mem_integerText (by decide) (by decide) _)
      (Decimal.not_mem_integerText (by decide) (by decide) _)
  · constructor
    · exact fun h => h.unique r.standsFor_text
    · rintro rfl
      exact r.standsFor_text
  · constructor
    · intro same
      have bits := s.standsFor_text.unique (sql_real s ▸ same ▸ r.standsFor_text)
      cases s
      cases r
      congr
    · rintro rfl
      exact sql_real s
  · rw [r.mem_text_iff (by decide)]
    exact mark_mem_shown_iff r.isFinite
  · rw [r.text_toList]
    unfold FiniteReal.isNegative
    split <;> rfl

/-- The negative real next to zero. -/
example : (Literal.real ⟨0x8000000000000001, by decide⟩).sql = "-5e-324" := by decide +kernel

end Literal
end SqliteSyntax
