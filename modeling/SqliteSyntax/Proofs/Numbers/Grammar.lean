import Mathlib.Computability.RegularExpressions
import SqliteSyntax.Proofs.Pieces.Numerals

/-! # The grammar of numerals

`Numeral.grammar` is the regular expression `[+-]? (D+ (. D*)? | . D+) ([eE] [+-]? D+)?`. The check of a
numeral cuts its text at the first exponent mark and the first point; the texts that it accepts are the
words of this grammar and no others (`Numeral.isWritten_iff_mem_grammar`). -/
namespace SqliteSyntax
set_option autoImplicit false

namespace Numeral

/-! ## The expression -/

section
open RegularExpression

/-- One of ten digits; the digits of other scripts are none. -/
def digit : RegularExpression Char :=
  char '0' + char '1' + char '2' + char '3' + char '4' + char '5' + char '6' + char '7' + char '8' +
    char '9'

def optional (part : RegularExpression Char) : RegularExpression Char := 1 + part

/-- At least one digit. -/
def digits : RegularExpression Char := digit * digit.star

def optionalSign : RegularExpression Char := optional (char '+' + char '-')

/-- Digits, then perhaps a point and more digits; or a point and digits. -/
def mantissaGrammar : RegularExpression Char :=
  digits * optional (char '.' * digit.star) + char '.' * digits

def exponentGrammar : RegularExpression Char := optionalSign * digits

def grammar : RegularExpression Char :=
  optionalSign * (mantissaGrammar * optional ((char 'e' + char 'E') * exponentGrammar))

end

/-! ## Words of its parts -/

theorem mem_optional {part : RegularExpression Char} {cs : List Char} :
    cs ∈ (optional part).matches' ↔ cs = [] ∨ cs ∈ part.matches' :=
  Iff.rfl

theorem mem_char {c : Char} {cs : List Char} :
    cs ∈ (RegularExpression.char c).matches' ↔ cs = [c] :=
  Iff.rfl

theorem mem_mul {a b : RegularExpression Char} {cs : List Char} :
    cs ∈ (a * b).matches' ↔ ∃ x y, x ∈ a.matches' ∧ y ∈ b.matches' ∧ cs = x ++ y := by
  rw [RegularExpression.matches'_mul, Language.mem_mul]
  constructor
  · rintro ⟨x, hx, y, hy, rfl⟩
    exact ⟨x, y, hx, hy, rfl⟩
  · rintro ⟨x, y, hx, hy, rfl⟩
    exact ⟨x, hx, y, hy, rfl⟩

theorem mem_add {a b : RegularExpression Char} {cs : List Char} :
    cs ∈ (a + b).matches' ↔ cs ∈ a.matches' ∨ cs ∈ b.matches' :=
  Iff.rfl

/-- A character is a digit exactly if it is one of the ten. -/
theorem isDigit_iff {c : Char} : c.isDigit = true ↔
    c = '0' ∨ c = '1' ∨ c = '2' ∨ c = '3' ∨ c = '4' ∨ c = '5' ∨ c = '6' ∨ c = '7' ∨ c = '8' ∨
      c = '9' := by
  constructor
  · intro h
    rw [Char.isDigit, Bool.and_eq_true, decide_eq_true_iff, decide_eq_true_iff, ge_iff_le,
      UInt32.le_iff_toNat_le, UInt32.le_iff_toNat_le] at h
    obtain ⟨low, high⟩ := h
    have value : c.val.toNat ∈ List.range' 48 10 := List.mem_range'_1.mpr ⟨low, Nat.lt_succ_of_le high⟩
    simp only [List.range', List.mem_cons, List.not_mem_nil, or_false] at value
    simp only [Char.ext_iff, ← UInt32.toNat_inj]
    exact value
  · rintro (rfl | rfl | rfl | rfl | rfl | rfl | rfl | rfl | rfl | rfl) <;> rfl

theorem mem_digit {cs : List Char} : cs ∈ digit.matches' ↔ ∃ c, cs = [c] ∧ c.isDigit = true := by
  simp only [digit, mem_add, mem_char, isDigit_iff]
  constructor
  · rintro (((((((((rfl | rfl) | rfl) | rfl) | rfl) | rfl) | rfl) | rfl) | rfl) | rfl) <;> simp
  · rintro ⟨c, rfl, h⟩
    simpa [or_assoc] using h

/-- A word of digits, or none. -/
theorem mem_star_digit {cs : List Char} : cs ∈ digit.star.matches' ↔ allDigits cs = true := by
  rw [RegularExpression.matches'_star, Language.mem_kstar, allDigits_iff]
  constructor
  · rintro ⟨words, rfl, each⟩ c hc
    obtain ⟨word, hword, hc⟩ := List.mem_flatten.mp hc
    obtain ⟨d, rfl, hd⟩ := mem_digit.mp (each word hword)
    rwa [List.mem_singleton.mp hc]
  · intro all
    refine ⟨cs.map fun c => [c], ?_, ?_⟩
    · induction cs with
      | nil => rfl
      | cons c rest ih => simpa using ih fun d hd => all d (List.mem_cons_of_mem c hd)
    · intro word hword
      obtain ⟨c, hc, rfl⟩ := List.mem_map.mp hword
      exact mem_digit.mpr ⟨c, rfl, all c hc⟩

theorem mem_digits {cs : List Char} : cs ∈ digits.matches' ↔ cs ≠ [] ∧ allDigits cs = true := by
  simp only [digits, mem_mul, mem_digit, mem_star_digit]
  constructor
  · rintro ⟨_, rest, ⟨c, rfl, hc⟩, hrest, rfl⟩
    exact ⟨by simp, by simp only [allDigits, List.singleton_append, List.all_cons, hc]; exact hrest⟩
  · rintro ⟨ne, all⟩
    obtain ⟨c, rest, rfl⟩ := List.exists_cons_of_ne_nil ne
    rw [allDigits, List.all_cons, Bool.and_eq_true] at all
    exact ⟨[c], rest, ⟨c, rfl, all.1⟩, all.2, rfl⟩

theorem mem_optionalSign {cs : List Char} :
    cs ∈ optionalSign.matches' ↔ cs = [] ∨ cs = ['+'] ∨ cs = ['-'] :=
  Iff.rfl

/-! ## Words and checks -/

/-- What is accepted after a sign, and begins with none, is accepted with and without the sign. -/
theorem mem_optionalSign_mul {part : RegularExpression Char} {check : List Char → Bool}
    (h : ∀ cs, cs ∈ part.matches' ↔ check cs = true)
    (bare : ∀ cs, check cs = true → dropSign cs = cs) {cs : List Char} :
    cs ∈ (optionalSign * part).matches' ↔ check (dropSign cs) = true := by
  simp only [mem_mul, mem_optionalSign, h]
  constructor
  · rintro ⟨_, rest, rfl | rfl | rfl, hrest, rfl⟩
    · rw [bare cs hrest]
      exact hrest
    · exact hrest
    · exact hrest
  · intro hcs
    unfold dropSign at hcs
    split at hcs
    · exact ⟨['-'], _, .inr (.inr rfl), hcs, rfl⟩
    · exact ⟨['+'], _, .inr (.inl rfl), hcs, rfl⟩
    · exact ⟨[], cs, .inl rfl, hcs, rfl⟩

theorem mem_mantissaGrammar {cs : List Char} :
    cs ∈ mantissaGrammar.matches' ↔ isMantissa cs = true := by
  simp only [mantissaGrammar, mem_add, mem_mul, mem_optional, mem_digits, mem_char, mem_star_digit]
  constructor
  · rintro (⟨whole, _, ⟨ne, hw⟩, rfl | ⟨_, fraction, rfl, hf, rfl⟩, rfl⟩ |
      ⟨_, fraction, rfl, ⟨ne, hf⟩, rfl⟩)
    · rw [List.append_nil]
      exact isMantissa_of_digits hw ne
    · exact isMantissa_of_point hw hf (.inl ne)
    · have whole : allDigits [] = true := rfl
      exact isMantissa_of_point whole hf (.inr ne)
  · intro h
    rcases parts_of_isMantissa h with ⟨ne, hw⟩ | ⟨whole, fraction, rfl, hw, hf, some_digit⟩
    · exact .inl ⟨cs, [], ⟨ne, hw⟩, .inl rfl, (List.append_nil cs).symm⟩
    · by_cases ne : whole = []
      · subst ne
        exact .inr ⟨['.'], fraction, rfl, ⟨some_digit.resolve_left (by simp), hf⟩, rfl⟩
      · exact .inl ⟨whole, '.' :: fraction, ⟨ne, hw⟩, .inr ⟨['.'], fraction, rfl, hf, rfl⟩, rfl⟩

theorem mem_exponentGrammar {cs : List Char} :
    cs ∈ exponentGrammar.matches' ↔ isExponent cs = true := by
  have part (ds : List Char) :
      ds ∈ digits.matches' ↔ (!ds.isEmpty && allDigits ds) = true := by
    rw [mem_digits]
    simp
  refine mem_optionalSign_mul part fun ds hds => ?_
  obtain ⟨ne, hd⟩ := mem_digits.mp ((part ds).mpr hds)
  have := dropSign_of_mantissa (isMantissa_of_digits hd ne) []
  rwa [List.append_nil] at this

theorem isExponentMark_iff {c : Char} : isExponentMark c = true ↔ c = 'e' ∨ c = 'E' := by
  rw [isExponentMark, Bool.or_eq_true, beq_iff_eq, beq_iff_eq]

/-- A word without the sign is one that the check for unsigned numerals takes. -/
theorem mem_unsignedGrammar {cs : List Char} :
    cs ∈ (mantissaGrammar * optional ((.char 'e' + .char 'E') * exponentGrammar)).matches' ↔
      isUnsigned cs = true := by
  simp only [mem_mul, mem_optional, mem_mantissaGrammar, mem_exponentGrammar, mem_add, mem_char]
  constructor
  · rintro ⟨mantissa, _, hm, rfl | ⟨_, exponent, hmark, he, rfl⟩, rfl⟩
    · rw [List.append_nil]
      exact isUnsigned_of_mantissa hm
    · rcases hmark with rfl | rfl
      · exact isUnsigned_of_exponent hm rfl he
      · exact isUnsigned_of_exponent hm rfl he
  · intro h
    rcases parts_of_isUnsigned h with hm | ⟨mantissa, mark, exponent, rfl, hm, hmark, he⟩
    · exact ⟨cs, [], hm, .inl rfl, (List.append_nil cs).symm⟩
    · refine ⟨mantissa, mark :: exponent, hm, .inr ⟨[mark], exponent, ?_, he, rfl⟩, rfl⟩
      rcases isExponentMark_iff.mp hmark with rfl | rfl
      · exact .inl rfl
      · exact .inr rfl

/-- The check takes the words of the grammar. -/
theorem isWritten_iff_mem_grammar {cs : List Char} :
    isWritten cs = true ↔ cs ∈ grammar.matches' := by
  rw [isWritten_eq]
  exact (mem_optionalSign_mul (fun _ => mem_unsignedGrammar) fun _ => dropSign_of_isUnsigned).symm

theorem ofText?_eq_some_iff {text : String} {n : Numeral} :
    ofText? text = some n ↔ isWritten text.toList = true ∧ n.text = text := by
  unfold ofText?
  split
  · next h =>
    rw [Option.some.injEq]
    constructor
    · rintro rfl
      exact ⟨h, rfl⟩
    · rintro ⟨-, rfl⟩
      rfl
  · next h => simp [h]

theorem ofText?_eq_none_iff {text : String} : ofText? text = none ↔ isWritten text.toList = false := by
  unfold ofText?
  split <;> simp_all

end Numeral

/-- A text is taken for a numeral, and for a decimal literal that is written as the same text, exactly
if it is a word of the grammar. Any other text is refused, for its form. -/
theorem Literal.ofDecimalText_iff_grammar (text : String) :
    ((∃ n, Numeral.ofText? text = some n ∧ n.text = text) ↔
      text.toList ∈ Numeral.grammar.matches') ∧
    ((∃ n, Numeral.ofText text = .ok n ∧ n.text = text) ↔
      text.toList ∈ Numeral.grammar.matches') ∧
    ((∃ l, ofDecimalText text = .ok l ∧ l.sql = text) ↔ text.toList ∈ Numeral.grammar.matches') ∧
    (Numeral.ofText? text = none ↔ text.toList ∉ Numeral.grammar.matches') ∧
    (Numeral.ofText text = .error (.unsupportedValue (.notNumeral text)) ↔
      text.toList ∉ Numeral.grammar.matches') ∧
    (ofDecimalText text = .error (.unsupportedValue (.notNumeral text)) ↔
      text.toList ∉ Numeral.grammar.matches') := by
  rw [← Numeral.isWritten_iff_mem_grammar]
  by_cases written : Numeral.isWritten text.toList = true
  · have taken : Numeral.ofText? text = some ⟨text, written⟩ :=
      Numeral.ofText?_eq_some_iff.mpr ⟨written, rfl⟩
    have checked : Numeral.ofText text = .ok ⟨text, written⟩ := by rw [Numeral.ofText, taken]
    rw [ofDecimalText, taken, checked]
    simp [written, sql_decimal, Except.map]
  · have refused := Numeral.ofText?_eq_none_iff.mpr (Bool.not_eq_true _ ▸ written)
    have failed : Numeral.ofText text = .error (.unsupportedValue (.notNumeral text)) := by
      rw [Numeral.ofText, refused]
    rw [ofDecimalText, refused, failed]
    simp [written, Except.map]

example : Numeral.ofText? "1; DROP TABLE t" = none := by decide

end SqliteSyntax
