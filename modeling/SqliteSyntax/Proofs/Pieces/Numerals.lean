import SqliteSyntax.Literal

/-! # Numerals are written alike

Integers and reals have numerals for text: the same form that a decimal must have to be taken. The
form is taken apart once more (`Numeral.opening_of_isUnsigned`,
`Numeral.runsThrough_of_isUnsigned`) for the
reader of text, which must know where a numeral begins and ends. -/
namespace SqliteSyntax
set_option autoImplicit false

/-! ## Digits -/

theorem isDigit_ne_point {c : Char} (h : c.isDigit = true) : c ≠ '.' := by
  rintro rfl
  exact absurd h (by decide)

theorem isDigit_not_mark {c : Char} (h : c.isDigit = true) : Numeral.isExponentMark c = false := by
  cases hm : Numeral.isExponentMark c with
  | false => rfl
  | true =>
    rw [Numeral.isExponentMark, Bool.or_eq_true, beq_iff_eq, beq_iff_eq] at hm
    obtain rfl | rfl := hm
    · exact absurd h (by decide)
    · exact absurd h (by decide)

theorem isDigit_of_mem_toDigits {n : Nat} {c : Char} (h : c ∈ Nat.toDigits 10 n) :
    c.isDigit = true :=
  Nat.isDigit_of_mem_toDigits (by decide) (by decide) h

namespace Numeral

theorem allDigits_iff {cs : List Char} : allDigits cs = true ↔ ∀ c ∈ cs, c.isDigit = true := by
  rw [allDigits, List.all_eq_true]

theorem allDigits_toDigits (n : Nat) : allDigits (Nat.toDigits 10 n) = true :=
  allDigits_iff.mpr fun _ h => isDigit_of_mem_toDigits h

theorem takeWhile_whole {cs : List Char} (h : allDigits cs = true) (rest : List Char) :
    (cs ++ '.' :: rest).takeWhile (· != '.') = cs ∧
      (cs ++ '.' :: rest).dropWhile (· != '.') = '.' :: rest := by
  have ne : ∀ c ∈ cs, (c != '.') = true := fun c hc =>
    bne_iff_ne.mpr (isDigit_ne_point (allDigits_iff.mp h c hc))
  rw [List.takeWhile_append_of_pos ne, List.dropWhile_append_of_pos ne]
  simp

/-! ## Mantissas and numerals from their parts -/

theorem isMantissa_of_digits {cs : List Char} (h : allDigits cs = true) (hne : cs ≠ []) :
    isMantissa cs = true := by
  have ne : ∀ c ∈ cs, (c != '.') = true := fun c hc =>
    bne_iff_ne.mpr (isDigit_ne_point (allDigits_iff.mp h c hc))
  have whole : cs.takeWhile (· != '.') = cs := by
    rw [← List.append_nil cs, List.takeWhile_append_of_pos ne]
    simp
  have fraction : cs.dropWhile (· != '.') = [] := by
    rw [← List.append_nil cs, List.dropWhile_append_of_pos ne]
    simp
  have some_digit : cs.isEmpty = false := by rw [List.isEmpty_eq_false_iff]; exact hne
  rw [isMantissa, whole, fraction, h, some_digit]
  rfl

theorem isMantissa_of_point {whole fraction : List Char} (hw : allDigits whole = true)
    (hf : allDigits fraction = true) (hne : whole ≠ [] ∨ fraction ≠ []) :
    isMantissa (whole ++ '.' :: fraction) = true := by
  obtain ⟨ht, hd⟩ := takeWhile_whole hw fraction
  rw [isMantissa, ht, hd]
  obtain h | h := hne <;> simp [h, hw, hf]

/-- A mantissa is digits, or digits around a point with at least one in all. -/
theorem parts_of_isMantissa {cs : List Char} (h : isMantissa cs = true) :
    (cs ≠ [] ∧ allDigits cs = true) ∨ ∃ whole fraction, cs = whole ++ '.' :: fraction ∧
      allDigits whole = true ∧ allDigits fraction = true ∧ (whole ≠ [] ∨ fraction ≠ []) := by
  have split := List.takeWhile_append_dropWhile (p := (· != '.')) (l := cs)
  simp only [isMantissa, Bool.and_eq_true, Bool.not_eq_true', Bool.and_eq_false_iff,
    List.isEmpty_eq_false_iff] at h
  obtain ⟨⟨some_digit, hw⟩, hf⟩ := h
  cases hd : cs.dropWhile (· != '.') with
  | nil =>
    rw [hd, List.append_nil] at split
    rw [hd, split] at some_digit
    rw [split] at hw
    exact Or.inl ⟨some_digit.resolve_right (by simp), hw⟩
  | cons d rest =>
    have hpoint : d = '.' := by
      have := List.head?_dropWhile_not (· != '.') cs
      simpa [hd] using this
    rw [hd, hpoint] at split
    rw [hd] at hf some_digit
    exact Or.inr ⟨_, rest, split.symm, hw, hf, some_digit⟩

/-- The characters of a mantissa. -/
theorem mantissa_chars {cs : List Char} (h : isMantissa cs = true) :
    ∀ c ∈ cs, c.isDigit = true ∨ c = '.' := by
  intro c hc
  rcases parts_of_isMantissa h with ⟨-, digits⟩ | ⟨whole, fraction, rfl, hw, hf, -⟩
  · exact Or.inl (allDigits_iff.mp digits c hc)
  · rcases List.mem_append.mp hc with hc | hc
    · exact Or.inl (allDigits_iff.mp hw c hc)
    · rcases List.mem_cons.mp hc with rfl | hc
      · exact Or.inr rfl
      · exact Or.inl (allDigits_iff.mp hf c hc)

theorem mantissa_not_mark {cs : List Char} (h : isMantissa cs = true) :
    ∀ c ∈ cs, (! isExponentMark c) = true := by
  intro c hc
  rcases mantissa_chars h c hc with hd | rfl
  · rw [isDigit_not_mark hd]
    rfl
  · rfl

theorem dropSign_of_mantissa {cs : List Char} (h : isMantissa cs = true) (rest : List Char) :
    dropSign (cs ++ rest) = cs ++ rest := by
  cases cs with
  | nil => simp [isMantissa] at h
  | cons c cs =>
    rcases mantissa_chars h c (List.mem_cons_self ..) with hd | rfl
    · simp only [List.cons_append]
      unfold dropSign
      split
      · next heq => cases heq; exact absurd hd (by decide)
      · next heq => cases heq; exact absurd hd (by decide)
      · rfl
    · rfl

/-- What a numeral is after its sign. -/
def isUnsigned (cs : List Char) : Bool :=
  match cs.dropWhile (! isExponentMark ·) with
  | [] => isMantissa (cs.takeWhile (! isExponentMark ·))
  | _ :: exponent => isMantissa (cs.takeWhile (! isExponentMark ·)) && isExponent exponent

theorem isWritten_eq (cs : List Char) : isWritten cs = isUnsigned (dropSign cs) := rfl

theorem isUnsigned_of_mantissa {cs : List Char} (h : isMantissa cs = true) :
    isUnsigned cs = true := by
  have hm := mantissa_not_mark h
  have ht : cs.takeWhile (! isExponentMark ·) = cs := by
    rw [← List.append_nil cs, List.takeWhile_append_of_pos hm]
    simp
  have hd : cs.dropWhile (! isExponentMark ·) = [] := by
    rw [← List.append_nil cs, List.dropWhile_append_of_pos hm]
    simp
  rw [isUnsigned, hd, ht]
  exact h

theorem isUnsigned_of_exponent {mantissa exponent : List Char} {mark : Char}
    (hm : isMantissa mantissa = true) (hmark : isExponentMark mark = true)
    (he : isExponent exponent = true) : isUnsigned (mantissa ++ mark :: exponent) = true := by
  have hn := mantissa_not_mark hm
  have ht : (mantissa ++ mark :: exponent).takeWhile (! isExponentMark ·) = mantissa := by
    rw [List.takeWhile_append_of_pos hn]
    simp [hmark]
  have hd : (mantissa ++ mark :: exponent).dropWhile (! isExponentMark ·) = mark :: exponent := by
    rw [List.dropWhile_append_of_pos hn]
    simp [hmark]
  simp only [isUnsigned, hd, ht, hm, he, Bool.and_self]

/-- An unsigned numeral is a mantissa, or a mantissa, an exponent mark and an exponent. -/
theorem parts_of_isUnsigned {cs : List Char} (h : isUnsigned cs = true) :
    isMantissa cs = true ∨ ∃ mantissa mark exponent, cs = mantissa ++ mark :: exponent ∧
      isMantissa mantissa = true ∧ isExponentMark mark = true ∧ isExponent exponent = true := by
  have split := List.takeWhile_append_dropWhile (p := (! isExponentMark ·)) (l := cs)
  rw [isUnsigned] at h
  cases hd : cs.dropWhile (! isExponentMark ·) with
  | nil =>
    rw [hd] at h split
    rw [List.append_nil] at split
    rw [split] at h
    exact Or.inl h
  | cons mark exponent =>
    have hmark : isExponentMark mark = true := by
      have := List.head?_dropWhile_not (! isExponentMark ·) cs
      simpa [hd] using this
    rw [hd] at h split
    obtain ⟨hm, he⟩ := Bool.and_eq_true_iff.mp h
    exact Or.inr ⟨_, mark, exponent, split.symm, hm, hmark, he⟩

theorem dropSign_of_isUnsigned {cs : List Char} (h : isUnsigned cs = true) : dropSign cs = cs := by
  rcases parts_of_isUnsigned h with hm | ⟨mantissa, mark, exponent, rfl, hm, -, -⟩
  · have := dropSign_of_mantissa hm []
    rwa [List.append_nil] at this
  · exact dropSign_of_mantissa hm _

theorem isWritten_of_isUnsigned {cs : List Char} (h : isUnsigned cs = true) :
    isWritten cs = true := by
  rw [isWritten_eq, dropSign_of_isUnsigned h]
  exact h

end Numeral

/-! ## Integers -/

open Numeral

theorem isExponent_integerText (n : Int) : isExponent (Decimal.integerText n) = true := by
  have hd := allDigits_toDigits n.natAbs
  have hne : Nat.toDigits 10 n.natAbs ≠ [] := Nat.toDigits_ne_nil
  unfold Decimal.integerText
  split
  · simp [isExponent, dropSign, hd, hne]
  · have := dropSign_of_mantissa (isMantissa_of_digits hd hne) []
    rw [List.append_nil] at this
    simp [isExponent, this, hd, hne]

theorem isWritten_integerText (n : Int) : isWritten (Decimal.integerText n) = true := by
  have hu := isUnsigned_of_mantissa
    (isMantissa_of_digits (allDigits_toDigits n.natAbs) Nat.toDigits_ne_nil)
  unfold Decimal.integerText
  split
  · exact hu
  · exact isWritten_of_isUnsigned hu

/-! ## Reals -/

theorem allDigits_take {cs : List Char} (h : allDigits cs = true) (n : Nat) :
    allDigits (cs.take n) = true :=
  allDigits_iff.mpr fun c hc => allDigits_iff.mp h c (List.mem_of_mem_take hc)

theorem allDigits_drop {cs : List Char} (h : allDigits cs = true) (n : Nat) :
    allDigits (cs.drop n) = true :=
  allDigits_iff.mpr fun c hc => allDigits_iff.mp h c (List.mem_of_mem_drop hc)

theorem allDigits_append {cs ds : List Char} (hc : allDigits cs = true) (hd : allDigits ds = true) :
    allDigits (cs ++ ds) = true := by
  rw [allDigits, List.all_append, Bool.and_eq_true]
  exact ⟨hc, hd⟩

theorem allDigits_zeros (n : Nat) : allDigits (List.replicate n '0') = true := by
  refine allDigits_iff.mpr fun c hc => ?_
  rw [List.eq_of_mem_replicate hc]
  decide

namespace Decimal

theorem allDigits_digits (d : Decimal) : allDigits d.digits = true := allDigits_toDigits _

theorem digits_ne_nil (d : Decimal) : d.digits ≠ [] := Nat.toDigits_ne_nil

theorem isMantissa_positional (d : Decimal) : isMantissa d.positional = true := by
  have hd := d.allDigits_digits
  unfold positional
  simp only []
  split
  · have hf := allDigits_append (allDigits_zeros (-d.pointPosition).toNat) hd
    have hw : allDigits ['0'] = true := by decide
    exact isMantissa_of_point hw hf (Or.inl (List.cons_ne_nil _ _))
  · next hpos =>
    split
    · have hw : d.digits.take d.pointPosition.toNat ≠ [] := by
        intro h
        rcases List.take_eq_nil_iff.mp h with h | h
        · omega
        · exact d.digits_ne_nil h
      exact isMantissa_of_point (allDigits_take hd _) (allDigits_drop hd _) (Or.inl hw)
    · have hw := allDigits_append hd (allDigits_zeros (d.pointPosition - d.digits.length).toNat)
      have hf : allDigits ['0'] = true := by decide
      have := isMantissa_of_point hw hf (Or.inr (List.cons_ne_nil _ _))
      rwa [List.append_assoc] at this ⊢

theorem isUnsigned_scientific (d : Decimal) : isUnsigned d.scientific = true := by
  have hd := d.allDigits_digits
  have hfirst : d.digits.take 1 ≠ [] := by
    intro h
    rcases List.take_eq_nil_iff.mp h with h | h
    · omega
    · exact d.digits_ne_nil h
  refine isUnsigned_of_exponent ?_ rfl (isExponent_integerText _)
  split
  · rw [List.append_nil]
    exact isMantissa_of_digits (allDigits_take hd 1) hfirst
  · exact isMantissa_of_point (allDigits_take hd 1) (allDigits_drop hd 1) (Or.inl hfirst)

theorem isUnsigned_text (d : Decimal) : isUnsigned d.text = true := by
  unfold text
  split
  · exact isUnsigned_of_mantissa d.isMantissa_positional
  · exact d.isUnsigned_scientific

end Decimal

theorem isUnsigned_magnitudeText (bits : UInt64) : isUnsigned (Binary64.magnitudeText bits) = true := by
  unfold Binary64.magnitudeText
  split
  · decide
  · exact Decimal.isUnsigned_text _

theorem FiniteReal.isWritten_text (r : FiniteReal) : isWritten r.text.toList = true := by
  have h := isUnsigned_magnitudeText r.bits
  unfold FiniteReal.text
  rw [String.toList_ofList]
  split
  · exact h
  · exact isWritten_of_isUnsigned h

/-! ## Where a numeral begins and how it goes on -/

namespace Numeral

/-- A numeral without a sign begins with a digit, or with a point and a digit. -/
theorem opening_of_isUnsigned {cs : List Char} (h : isUnsigned cs = true) :
    ∃ c rest, cs = c :: rest ∧ (c.isDigit = true ∨
      c = '.' ∧ ∃ d rest', rest = d :: rest' ∧ d.isDigit = true) := by
  have opening : ∀ m tail : List Char, isMantissa m = true →
      ∃ c rest, m ++ tail = c :: rest ∧ (c.isDigit = true ∨
        c = '.' ∧ ∃ d rest', rest = d :: rest' ∧ d.isDigit = true) := by
    intro m tail hm
    cases m with
    | nil => simp [isMantissa] at hm
    | cons c m =>
      refine ⟨c, m ++ tail, rfl, ?_⟩
      rcases mantissa_chars hm c (List.mem_cons_self ..) with hd | rfl
      · exact Or.inl hd
      · refine Or.inr ⟨rfl, ?_⟩
        cases m with
        | nil => simp [isMantissa] at hm
        | cons d m =>
          refine ⟨d, m ++ tail, rfl, ?_⟩
          simp [isMantissa, allDigits] at hm
          exact hm.1
  rcases parts_of_isUnsigned h with hm | ⟨m, mark, exponent, rfl, hm, -, -⟩
  · have := opening cs [] hm
    rwa [List.append_nil] at this
  · exact opening m _ hm

/-- Whether a numeral may go on with a character: a sign only follows an exponent mark. -/
def goesOn (afterMark : Bool) (c : Char) : Bool :=
  c.isDigit || c == '.' || isExponentMark c || afterMark && (c == '-' || c == '+')

/-- Every character is one that a numeral may go on with. -/
def runsThrough : Bool → List Char → Bool
  | _, [] => true
  | afterMark, c :: rest => goesOn afterMark c && runsThrough (isExponentMark c) rest

theorem runsThrough_of_digits {cs : List Char} (afterMark : Bool) (h : allDigits cs = true) :
    runsThrough afterMark cs = true := by
  induction cs generalizing afterMark with
  | nil => rfl
  | cons c rest ih =>
    rw [allDigits, List.all_cons, Bool.and_eq_true] at h
    simp [runsThrough, goesOn, h.1, ih _ h.2]

theorem runsThrough_append {m rest : List Char} (afterMark : Bool)
    (hm : ∀ c ∈ m, c.isDigit = true ∨ c = '.') (hne : m ≠ [])
    (hrest : runsThrough false rest = true) : runsThrough afterMark (m ++ rest) = true := by
  induction m generalizing afterMark with
  | nil => exact absurd rfl hne
  | cons c m ih =>
    have hmark : isExponentMark c = false := by
      rcases hm c (List.mem_cons_self ..) with hd | rfl
      · exact isDigit_not_mark hd
      · rfl
    have hc : goesOn afterMark c = true := by
      rcases hm c (List.mem_cons_self ..) with hd | rfl
      · simp [goesOn, hd]
      · simp [goesOn]
    rw [List.cons_append, runsThrough, hc, Bool.true_and, hmark]
    cases m with
    | nil => exact hrest
    | cons d m => exact ih false (fun x hx => hm x (List.mem_cons_of_mem c hx)) (List.cons_ne_nil d m)

theorem runsThrough_of_isUnsigned {cs : List Char} (h : isUnsigned cs = true) :
    runsThrough false cs = true := by
  rcases parts_of_isUnsigned h with hm | ⟨m, mark, exponent, rfl, hm, hmark, he⟩
  · have hne : cs ≠ [] := by
      rintro rfl
      simp [isMantissa] at hm
    have := @runsThrough_append cs [] false (mantissa_chars hm) hne rfl
    rwa [List.append_nil] at this
  · have hne : m ≠ [] := by
      rintro rfl
      simp [isMantissa] at hm
    refine runsThrough_append false (mantissa_chars hm) hne ?_
    rw [runsThrough, goesOn, hmark, Bool.or_true, Bool.true_or, Bool.true_and]
    simp only [isExponent, Bool.and_eq_true] at he
    -- The exponent is digits, or a sign that the exponent mark allows and digits.
    unfold dropSign at he
    split at he
    · simp [runsThrough, goesOn, runsThrough_of_digits _ he.2]
    · simp [runsThrough, goesOn, runsThrough_of_digits _ he.2]
    · exact runsThrough_of_digits true he.2

/-- The characters of a numeral. -/
def isNumeralChar (c : Char) : Bool := goesOn true c

theorem goesOn_le {c : Char} {afterMark : Bool} (h : goesOn afterMark c = true) :
    isNumeralChar c = true := by
  cases afterMark with
  | true => exact h
  | false =>
    simp only [goesOn, Bool.false_and, Bool.or_false] at h
    simp only [isNumeralChar, goesOn, h, Bool.true_or]

theorem isNumeralChar_of_runsThrough {cs : List Char} {afterMark : Bool}
    (h : runsThrough afterMark cs = true) : ∀ c ∈ cs, isNumeralChar c = true := by
  induction cs generalizing afterMark with
  | nil => simp
  | cons c rest ih =>
    rw [runsThrough, Bool.and_eq_true] at h
    intro d hd
    rcases List.mem_cons.mp hd with rfl | hd
    · exact goesOn_le h.1
    · exact ih h.2 d hd

/-- A numeral is an unsigned one, perhaps with a sign in front. -/
theorem sign_of_isWritten {cs : List Char} (h : isWritten cs = true) :
    isUnsigned cs = true ∨
      ∃ sign rest, cs = sign :: rest ∧ (sign = '-' ∨ sign = '+') ∧ isUnsigned rest = true := by
  rw [isWritten_eq] at h
  unfold dropSign at h
  split at h
  · exact Or.inr ⟨_, _, rfl, Or.inl rfl, h⟩
  · exact Or.inr ⟨_, _, rfl, Or.inr rfl, h⟩
  · exact Or.inl h

theorem isNumeralChar_of_isWritten {cs : List Char} (h : isWritten cs = true) :
    ∀ c ∈ cs, isNumeralChar c = true := by
  rcases sign_of_isWritten h with hu | ⟨sign, rest, rfl, hs, hu⟩
  · exact isNumeralChar_of_runsThrough (runsThrough_of_isUnsigned hu)
  · intro c hc
    rcases List.mem_cons.mp hc with rfl | hc
    · rcases hs with rfl | rfl <;> decide
    · exact isNumeralChar_of_runsThrough (runsThrough_of_isUnsigned hu) c hc

end Numeral

/-- The first character of a numeral without a sign is neither a sign nor an arrow head. -/
theorem head_of_isUnsigned {cs : List Char} (h : Numeral.isUnsigned cs = true) :
    ∃ c rest, cs = c :: rest ∧ c ≠ '-' ∧ c ≠ '+' ∧ c ≠ '>' := by
  obtain ⟨c, rest, rfl, opening⟩ := Numeral.opening_of_isUnsigned h
  refine ⟨c, rest, rfl, ?_⟩
  rcases opening with digit | ⟨rfl, -⟩
  · refine ⟨?_, ?_, ?_⟩
    all_goals
      rintro rfl
      exact absurd digit (by decide)
  · decide

theorem Numeral.ofText?_text (d : Numeral) : Numeral.ofText? d.text = some d := by
  rw [Numeral.ofText?, dif_pos d.written]

/-! ## Numbers as literals -/

namespace Literal

theorem sql_integer (n : Int64) :
    (Literal.integer n).sql = String.ofList (Decimal.integerText n.toInt) := by
  simp [sql, pieces, textOf, Piece.chars]

theorem sql_real (r : FiniteReal) : (Literal.real r).sql = r.text := by
  simp [sql, pieces, textOf, Piece.chars]

theorem sql_decimal (n : Numeral) : (Literal.decimal n).sql = n.text := by
  simp [sql, pieces, textOf, Piece.chars]

end Literal
end SqliteSyntax
