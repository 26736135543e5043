import Mathlib.Data.List.Chain
import SqliteSyntax.Proofs.Quotes.Scan

/-! # No comment opens outside of quotes

Two neighbouring marks open a comment: two minus signs, or a slash and a star. What keeps pieces apart
is neither, so a comment could only open within a piece or where a sign touches its operand, and a sign
never touches a second one (`Tidy.noComment`). -/
namespace SqliteSyntax
set_option autoImplicit false

/-! ## Characters that break text up -/

/-- Quotes, the semicolon, parentheses and the characters that comments are opened with. -/
def isBreaking (c : Char) : Bool := isQuote c || decide (c ∈ [';', '(', ')', '-', '/', '*'])

/-- The text has no character that breaks text up. -/
def Unbroken (cs : List Char) : Prop := ∀ c ∈ cs, isBreaking c = false

instance (cs : List Char) : Decidable (Unbroken cs) :=
  decidable_of_iff (cs.all (!isBreaking ·) = true) (by simp [Unbroken])

theorem isBreaking_eq_false {c : Char} :
    isBreaking c = false ↔ isQuote c = false ∧ c ∉ [';', '(', ')', '-', '/', '*'] := by
  rw [isBreaking, Bool.or_eq_false_iff, decide_eq_false_iff_not]

theorem Unbroken.quoteFree {cs : List Char} (h : Unbroken cs) : QuoteFree cs :=
  fun c hc => (isBreaking_eq_false.mp (h c hc)).1

theorem not_isBreaking_of_isWordChar {c : Char} (h : isWordChar c = true) : isBreaking c = false := by
  refine isBreaking_eq_false.mpr ⟨not_isQuote_of_isWordChar h, fun hc => ?_⟩
  have none : [';', '(', ')', '-', '/', '*'].all (!isWordChar ·) = true := by decide
  have hn := List.all_eq_true.mp none c hc
  rw [h] at hn
  exact Bool.noConfusion hn

theorem unbroken_of_isWord {t : String} (h : isWord t = true) : Unbroken t.toList := by
  intro c hc
  unfold isWord at h
  split at h
  · exact Bool.noConfusion h
  · rename_i first rest chars
    rw [Bool.and_eq_true, List.all_eq_true] at h
    exact not_isBreaking_of_isWordChar (h.2 c (chars ▸ hc))

/-! ## Openings of comments -/

/-- The two marks open a comment when they stand side by side. -/
def OpensComment (a b : Mark) : Prop :=
  a = .plain '-' ∧ b = .plain '-' ∨ a = .plain '/' ∧ b = .plain '*'

instance : DecidableRel OpensComment :=
  fun a b => inferInstanceAs (Decidable (a = .plain '-' ∧ b = .plain '-' ∨
    a = .plain '/' ∧ b = .plain '*'))

/-- No two neighbours open a comment. -/
def NoComment (marks : List Mark) : Prop := marks.IsChain fun a b => ¬ OpensComment a b

instance (marks : List Mark) : Decidable (NoComment marks) :=
  inferInstanceAs (Decidable (marks.IsChain fun a b => ¬ OpensComment a b))

/-- Marks that open no comment with any neighbour. -/
def Mark.isNeutral : Mark → Bool
  | .plain c => !isBreaking c || decide (c ∈ [';', '(', ')'])
  | .quoted _ _ => true

theorem not_opensComment_of_isNeutral {a b : Mark} (h : a.isNeutral = true ∨ b.isNeutral = true) :
    ¬ OpensComment a b := by
  rintro (⟨rfl, rfl⟩ | ⟨rfl, rfl⟩)
  · exact absurd h (by decide)
  · exact absurd h (by decide)

namespace NoComment

theorem cons {m : Mark} {marks : List Mark} (hm : m.isNeutral = true) (h : NoComment marks) :
    NoComment (m :: marks) :=
  List.isChain_cons.mpr ⟨fun _ _ => not_opensComment_of_isNeutral (.inl hm), h⟩

/-- A neutral mark keeps what stands before it apart from what follows. -/
theorem append_cons {a b : List Mark} {m : Mark} (hm : m.isNeutral = true) (ha : NoComment a)
    (hb : NoComment b) : NoComment (a ++ m :: b) := by
  refine List.isChain_append.mpr ⟨ha, NoComment.cons hm hb, fun x _ y hy => ?_⟩
  rw [List.head?_cons, Option.mem_some_iff] at hy
  exact not_opensComment_of_isNeutral (.inr (hy ▸ hm))

theorem of_isNeutral {marks : List Mark} (h : ∀ m ∈ marks, m.isNeutral = true) :
    NoComment marks := by
  induction marks with
  | nil => exact .nil
  | cons m rest ih =>
    exact .cons (h m (List.mem_cons_self ..)) (ih fun n hn => h n (List.mem_cons_of_mem m hn))

theorem of_unbroken {cs : List Char} (h : Unbroken cs) : NoComment (cs.map .plain) := by
  refine of_isNeutral fun m hm => ?_
  obtain ⟨c, hc, rfl⟩ := List.mem_map.mp hm
  rw [Mark.isNeutral, h c hc]
  rfl

/-- Two minus signs do not stand side by side, nor do a slash and a star. -/
theorem not_infix {marks : List Mark} (h : NoComment marks) {a b : Mark} (hab : OpensComment a b) :
    ¬ [a, b] <:+: marks := by
  intro sub
  have pair : NoComment [a, b] := List.IsChain.infix h sub
  exact (List.isChain_pair.mp pair) hab

end NoComment

/-! ## Numerals -/

/-- The characters that a numeral may go on with open no comment. -/
theorem NoComment.of_runsThrough {cs : List Char} {afterMark : Bool}
    (h : Numeral.runsThrough afterMark cs = true) : NoComment (cs.map .plain) := by
  induction cs generalizing afterMark with
  | nil => exact .nil
  | cons c rest ih =>
    rw [Numeral.runsThrough, Bool.and_eq_true] at h
    refine List.isChain_cons.mpr ⟨fun m hm => ?_, ih h.2⟩
    rintro (⟨hc, rfl⟩ | ⟨hc, -⟩)
    · -- After a minus sign, which is no exponent mark, no second sign goes on.
      cases hc
      cases rest with
      | nil => exact absurd hm (by simp)
      | cons d rest =>
        have hd : d = '-' := by simpa using hm
        subst hd
        rw [Numeral.runsThrough, Bool.and_eq_true] at h
        exact absurd h.2.1 (by decide)
    · cases hc
      have no_slash : ∀ afterMark, Numeral.goesOn afterMark '/' = false := by decide
      rw [no_slash] at h
      exact Bool.noConfusion h.1

theorem NoComment.of_isWritten {cs : List Char} (h : Numeral.isWritten cs = true) :
    NoComment (cs.map .plain) := by
  rcases Numeral.sign_of_isWritten h with hu | ⟨sign, rest, rfl, hs, hu⟩
  · exact .of_runsThrough (Numeral.runsThrough_of_isUnsigned hu)
  · -- The sign stands as it would after an exponent mark.
    have signed : Numeral.runsThrough true (sign :: rest) = true := by
      rw [Numeral.runsThrough, Bool.and_eq_true]
      rcases hs with rfl | rfl
      · exact ⟨by decide, Numeral.runsThrough_of_isUnsigned hu⟩
      · exact ⟨by decide, Numeral.runsThrough_of_isUnsigned hu⟩
    exact .of_runsThrough signed

/-! ## Tidy text -/

theorem Piece.noComment {p : Piece} (h : p.standsAlone = true)
    (given : ∀ v, p = .verbatim v → Unbroken v.toList) : NoComment p.marks := by
  cases p with
  | fixed t =>
    rw [standsAlone, Bool.or_eq_true] at h
    rcases h with hw | ho
    · exact .of_unbroken (unbroken_of_isWord hw)
    · have marks : ∀ t ∈ operatorMarks, NoComment (Piece.fixed t).marks := by decide
      exact marks t (of_decide_eq_true ho)
  | numeral digits => exact .of_isWritten h
  | name content => exact .of_isNeutral (by simp [marks, Mark.isNeutral])
  | text content => exact .of_isNeutral (by simp [marks, Mark.isNeutral])
  | blob bytes => exact .of_isNeutral (by simp [marks, Mark.isNeutral]; decide)
  | verbatim v => exact .of_unbroken (given v rfl)
  | space => exact Bool.noConfusion h
  | groupOpen => exact Bool.noConfusion h
  | groupClose => exact Bool.noConfusion h

/-- A plain mark at the front is the character at the front. -/
theorem head?_of_marksOf {ps : List Piece} {c : Char} (h : Mark.plain c ∈ (marksOf ps).head?) :
    c ∈ (charsOf ps).head? := by
  have plain (cs : List Char) (rest : List Piece) (ih : Mark.plain c ∈ (marksOf rest).head? →
      c ∈ (charsOf rest).head?) (h : Mark.plain c ∈ (cs.map Mark.plain ++ marksOf rest).head?) :
      c ∈ (cs ++ charsOf rest).head? := by
    cases cs with
    | nil => exact ih h
    | cons d cs => simpa using h
  induction ps with
  | nil => exact absurd h (by simp [marksOf])
  | cons p rest ih =>
    rw [marksOf, List.flatMap_cons] at h
    cases p with
    | name content => simp [Piece.marks] at h
    | text content => simp [Piece.marks] at h
    | blob bytes => simpa [Piece.marks, Piece.chars] using h
    | space => exact plain [' '] rest ih h
    | groupOpen => exact plain ['('] rest ih h
    | groupClose => exact plain [')'] rest ih h
    | fixed t => exact plain t.toList rest ih h
    | numeral t => exact plain t.toList rest ih h
    | verbatim t => exact plain t.toList rest ih h

theorem marksOf_append (a b : List Piece) : marksOf (a ++ b) = marksOf a ++ marksOf b :=
  List.flatMap_append

/-- No comment opens in tidy text, if none can open in what is given as it stands. -/
theorem Tidy.noComment {ps : List Piece} (h : Tidy ps)
    (given : ∀ v, Piece.verbatim v ∈ ps → Unbroken v.toList) : NoComment (marksOf ps) := by
  have one {p : Piece} {ps : List Piece} (hp : p.standsAlone = true)
      (given : ∀ v, Piece.verbatim v ∈ p :: ps → Unbroken v.toList) : NoComment p.marks :=
    Piece.noComment hp fun v hv => given v (hv ▸ List.mem_cons_self ..)
  induction h with
  | nil => exact .nil
  | @one p hp =>
    rw [marksOf, List.flatMap_singleton]
    exact one hp given
  | spaced _ _ ihl ihr =>
    rw [marksOf_append]
    exact .append_cons (by decide) (ihl fun v hv => given v (by simp [hv]))
      (ihr fun v hv => given v (by simp [hv]))
  | listed _ _ ihl ihr =>
    rw [marksOf_append]
    have right := ihr fun v hv => given v (by simp [hv])
    exact .append_cons (m := .plain ',') (by decide) (ihl fun v hv => given v (by simp [hv]))
      (.cons (m := .plain ' ') (by decide) right)
  | ended _ _ ihl ihr =>
    rw [marksOf_append]
    have right := ihr fun v hv => given v (by simp [hv])
    exact .append_cons (m := .plain ';') (by decide) (ihl fun v hv => given v (by simp [hv]))
      (.cons (m := .plain ' ') (by decide) right)
  | enclosed _ ih =>
    rw [marksOf_append]
    have inner := ih fun v hv => given v (by simp [hv])
    exact .append_cons (m := .plain ')') (by decide) (.cons (m := .plain '(') (by decide) inner) .nil
  | grouped _ ih =>
    rw [marksOf_append]
    have inner := ih fun v hv => given v (by simp [hv])
    exact .append_cons (m := .plain ')') (by decide) (.cons (m := .plain '(') (by decide) inner) .nil
  | @called p a label _ ih =>
    have inner := ih fun v hv => given v (by simp [hv])
    have arguments : NoComment (marksOf a ++ [.plain ')']) := .append_cons (by decide) inner .nil
    have whole := NoComment.append_cons (m := .plain '(') (by decide)
      (one (Piece.standsAlone_of_isLabel label) given) arguments
    simpa [marksOf, Piece.marks, Piece.chars] using whole
  | dotted label _ _ ih =>
    have rest := ih fun v hv => given v (List.mem_cons_of_mem _ (List.mem_cons_of_mem _ hv))
    exact .append_cons (m := .plain '.') (by decide)
      (one (Piece.standsAlone_of_isLabel label) given) rest
  | @signed m p a hm _ apart _ ih =>
    have rest := ih fun v hv => given v (List.mem_cons_of_mem _ hv)
    have mark : ∃ c, (Piece.fixed m).marks = [.plain c] ∧ c ≠ '/' ∧ (c = '-' → m ≠ "~") := by
      have all : ∀ m ∈ prefixMarks, m = "-" ∨ m = "+" ∨ m = "~" := by decide
      rcases all m hm with rfl | rfl | rfl <;> exact ⟨_, rfl, by decide, by decide⟩
    obtain ⟨c, hc, not_slash, not_tilde⟩ := mark
    rw [marksOf, List.flatMap_cons, hc]
    refine List.isChain_cons.mpr ⟨fun n hn => ?_, rest⟩
    rintro (⟨minus, rfl⟩ | ⟨slash, -⟩)
    · -- The operand would begin with a sign, and then it stands in parentheses.
      cases minus
      have leads : leadsWithSign (p :: a) = true := by
        have front := head?_of_marksOf hn
        unfold leadsWithSign
        cases chars : charsOf (p :: a) with
        | nil => simp [chars] at front
        | cons d _ => simp_all
      rcases apart with tilde | calm
      · exact not_tilde rfl tilde
      · rw [leads] at calm
        exact Bool.noConfusion calm
    · cases slash
      exact not_slash rfl

end SqliteSyntax
