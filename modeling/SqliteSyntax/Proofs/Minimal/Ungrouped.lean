import SqliteSyntax.Proofs.Minimal.Pairs

/-! # Text without a pair of parentheses

When a pair of parentheses of precedence is taken out of tidy text, a lexer finds the outline of what
is left (`Tidy.outlines_ungrouped`). The pieces may be others: two signs that come to touch are taken
for one longer mark, which has the same characters (`outlineOf_lex_marks`). -/
namespace SqliteSyntax
set_option autoImplicit false

/-! ## Marks that touch -/

/-- The characters of the marks that may grow longer, and of the signs. -/
def markChars : List Char := ['-', '+', '~', '>', '/', '*', '|', '<', '=', '!']

theorem firstPiece_mark {c : Char} (h : c ∈ markChars) (rest : List Char) :
    firstPiece c rest = (.fixed (leadingMark c rest).1, (leadingMark c rest).2) := by
  simp only [markChars, List.mem_cons, List.not_mem_nil, or_false] at h
  rcases h with rfl | rfl | rfl | rfl | rfl | rfl | rfl | rfl | rfl | rfl
  all_goals rfl

/-- The mark that stands first and what follows it are the text. -/
theorem leadingMark_split {c : Char} (h : c ∈ markChars) (rest : List Char) :
    ∃ more, rest = more ++ (leadingMark c rest).2 ∧ (∀ d ∈ more, d ∈ markChars) ∧
      (Piece.fixed (leadingMark c rest).1).outline = .solid c :: more.map .solid := by
  unfold leadingMark
  split
  · next mark hm =>
    have listed : ∀ mark ∈ longMarks, mark.toList.all (· ∈ markChars) = true ∧
        mark.toList ≠ [] ∧ (Piece.fixed mark).outline = mark.toList.map .solid := by decide
    obtain ⟨chars, ne, outline⟩ := listed mark (List.mem_of_find?_eq_some hm)
    obtain ⟨d, more, text⟩ := List.exists_cons_of_ne_nil ne
    have first := List.find?_some hm
    rw [List.isPrefixOf_iff_prefix, text] at first
    obtain ⟨behind, split⟩ := first
    obtain ⟨rfl, rfl⟩ := List.cons_eq_cons.mp split
    have length : mark.length - 1 = more.length := by
      rw [← String.length_toList, text, List.length_cons, Nat.add_sub_cancel]
    rw [text] at chars outline
    have listed (d : Char) (hd : d ∈ more) : d ∈ markChars :=
      of_decide_eq_true (List.all_eq_true.mp chars d (List.mem_cons_of_mem _ hd))
    refine ⟨more, ?_, listed, outline⟩
    show more ++ behind = more ++ (more ++ behind).drop (mark.length - 1)
    rw [length, List.drop_left]
  · have single : markChars.all fun c =>
        (Piece.fixed (String.singleton c)).outline = [.solid c] := by decide
    exact ⟨[], rfl, by simp, of_decide_eq_true (List.all_eq_true.mp single c h)⟩

/-- However marks that touch are cut into pieces, their outline is their characters. -/
theorem outlineOf_lex_marks {marks : List Char} (h : ∀ c ∈ marks, c ∈ markChars)
    (rest : List Char) :
    outlineOf (lex (marks ++ rest)) = marks.map .solid ++ outlineOf (lex rest) := by
  -- By induction on the length: a long mark may take characters beyond the marks given.
  induction hn : (marks ++ rest).length using Nat.strong_induction_on generalizing marks rest with
  | _ n ih =>
    cases marks with
    | nil => rfl
    | cons c others =>
      obtain ⟨hc, hothers⟩ := List.forall_mem_cons.mp h
      obtain ⟨more, split, hmore, outline⟩ := leadingMark_split hc (others ++ rest)
      have shorter : (others ++ rest).length < n := by
        rw [← hn]
        exact Nat.lt_succ_self _
      have direct := ih _ shorter hothers rest rfl
      have taken := ih _ shorter hmore (leadingMark c (others ++ rest)).2 (by rw [← split])
      rw [List.cons_append, lex_cons (firstPiece_mark hc _), outlineOf_cons, outline,
        List.cons_append, ← taken, ← split, direct]
      rfl

/-! ## Outlines of what a lexer finds -/

theorem Piece.outline_plain {p : Piece} (h : p.VerbatimWord) : outlineOf p.plain = p.outline := by
  cases p with
  | numeral digits =>
    show outlineOf (plainNumeral digits) = digits.toList.map .solid
    unfold plainNumeral
    split
    · next rest text =>
      rw [text]
      simp [outline, Piece.chars]
    · next rest text =>
      rw [text]
      simp [outline, Piece.chars]
    · simp [outline, Piece.chars]
  | verbatim content =>
    have word : isWord content = true := h
    have paren : (Piece.fixed content).isParen = false :=
      Piece.isParen_of_standsAlone (by rw [standsAlone, word, Bool.true_or])
    show (Piece.fixed content).outline ++ [] = content.toList.map .solid
    rw [Piece.outline_of_isParen paren, if_neg Piece.noConfusion, List.append_nil]
    rfl
  | _ => simp [plain]

theorem outlineOf_plainOf {ps : List Piece} (words : ∀ p ∈ ps, p.VerbatimWord) :
    outlineOf (plainOf ps) = outlineOf ps := by
  induction ps with
  | nil => rfl
  | cons p rest ih =>
    obtain ⟨first, others⟩ := List.forall_mem_cons.mp words
    rw [plainOf_cons, outlineOf_append, outlineOf_cons, Piece.outline_plain first, ih others]

/-- A lexer finds the outline in front of `k`. -/
def Outlines (ps : List Piece) (k : List Char) : Prop :=
  outlineOf (lex (charsOf ps ++ k)) = outlineOf ps ++ outlineOf (lex k)

namespace Outlines

theorem of_lexes {ps : List Piece} {k : List Char} (words : ∀ p ∈ ps, p.VerbatimWord)
    (h : Lexes ps k) : Outlines ps k := by
  unfold Lexes at h
  unfold Outlines
  rw [h, outlineOf_append, outlineOf_plainOf words]

theorem append {a b : List Piece} {k : List Char} (ha : Outlines a (charsOf b ++ k))
    (hb : Outlines b k) : Outlines (a ++ b) k := by
  unfold Outlines at ha hb ⊢
  rw [charsOf_append, List.append_assoc, ha, hb, outlineOf_append, List.append_assoc]

theorem cons {p : Piece} {ps : List Piece} {k : List Char} (hp : Outlines [p] (charsOf ps ++ k))
    (hps : Outlines ps k) : Outlines (p :: ps) k :=
  append (a := [p]) hp hps

theorem mark {m : String} (h : m ∈ prefixMarks) (k : List Char) : Outlines [.fixed m] k := by
  have marks : ∀ m ∈ prefixMarks, m.toList.all (· ∈ markChars) = true ∧
      (Piece.fixed m).outline = m.toList.map .solid := by decide
  obtain ⟨chars, outline⟩ := marks m h
  have chars (c : Char) (hc : c ∈ m.toList) : c ∈ markChars :=
    of_decide_eq_true (List.all_eq_true.mp chars c hc)
  have text : charsOf [.fixed m] = m.toList := List.append_nil _
  unfold Outlines
  rw [text, outlineOf_lex_marks chars k, outlineOf_cons, outline, outlineOf_nil, List.append_nil]

end Outlines

/-! ## Tidy text without a pair -/

theorem pair_of_cons {p : Piece} {ps a b z : List Piece} (hp : p ≠ .groupOpen)
    (h : p :: ps = a ++ .groupOpen :: b ++ .groupClose :: z) :
    ∃ a', a = p :: a' ∧ ps = a' ++ .groupOpen :: b ++ .groupClose :: z := by
  cases a with
  | nil => exact absurd (List.cons.inj h).1 hp
  | cons p' a =>
    obtain ⟨rfl, rest⟩ := List.cons.inj h
    exact ⟨a, rfl, rest⟩

namespace Outlines

/-- A mark that no text after it makes longer. -/
theorem fixed {t : String} {c : Char} {k : List Char} (chars : t.toList = [c])
    (h : firstPiece c k = (.fixed t, k)) : Outlines [.fixed t] k :=
  .of_lexes (List.forall_mem_singleton.mpr trivial) (.of_first chars rfl h)

theorem space (k : List Char) : Outlines [.space] k :=
  .of_lexes (List.forall_mem_singleton.mpr trivial) (.of_first rfl rfl rfl)

theorem between {ps : List Piece} {k : List Char} (h : Outlines ps (')' :: k)) :
    Outlines (.fixed "(" :: ps ++ [.fixed ")"]) k :=
  .cons (.fixed rfl (firstPiece_open _)) (.append h (.fixed rfl (firstPiece_close k)))

/-- For a lexer a parenthesis of precedence is like any other. -/
theorem grouped {ps : List Piece} {k : List Char} (h : Outlines ps (')' :: k)) :
    Outlines (.groupOpen :: ps ++ [.groupClose]) k := by
  have same : charsOf (.groupOpen :: ps ++ [.groupClose]) =
      charsOf (.fixed "(" :: ps ++ [.fixed ")"]) := by simp [Piece.chars]
  have whole := h.between
  unfold Outlines at whole ⊢
  rw [same, whole]
  simp

/-- A pair in two parts with a separator between them is in one of the two. -/
theorem joined {l r sep a b z : List Piece} (hl : Tidy l) (hr : Tidy r)
    (words : ∀ p ∈ l ++ (sep ++ r), p.VerbatimWord)
    (apart : ∀ k, Outlines sep k ∧ Ends (charsOf sep ++ k))
    (level : ∀ p ∈ sep, p.isParen = false)
    (pair : l ++ (sep ++ r) = a ++ .groupOpen :: b ++ .groupClose :: z)
    (hb : Balanced (outlineOf b))
    (left : ∀ z', l = a ++ .groupOpen :: b ++ .groupClose :: z' → ∀ k, Ends k →
      Outlines (a ++ b ++ z') k)
    (right : ∀ a', r = a' ++ .groupOpen :: b ++ .groupClose :: z → ∀ k, Ends k →
      Outlines (a' ++ b ++ z) k) {k : List Char} (hk : Ends k) : Outlines (a ++ b ++ z) k := by
  obtain ⟨wl, words⟩ := List.forall_mem_append.mp words
  obtain ⟨ws, wr⟩ := List.forall_mem_append.mp words
  have ends (ps : List Piece) : Ends (charsOf (sep ++ ps) ++ k) := by
    rw [charsOf_append, List.append_assoc]
    exact (apart _).2
  rcases pair_of_append hl.balanced_outline hb pair with ⟨z', rfl, inside⟩ | ⟨a', rfl, inside⟩
  · have behind : Outlines (sep ++ r) k := (apart _).1.append (.of_lexes wr (hr.lexes wr hk))
    have whole := (left z' inside _ (ends r)).append behind
    rwa [List.append_assoc] at whole
  · have flat : Balanced (outlineOf sep) := balanced_of_isParen level
    rcases pair_of_append flat hb inside with ⟨z', rfl, own⟩ | ⟨a'', rfl, inner⟩
    · exact absurd (level .groupOpen (by simp [own])) (by decide)
    · have front : Outlines l (charsOf (sep ++ (a'' ++ b ++ z)) ++ k) :=
        .of_lexes wl (hl.lexes wl (ends _))
      have whole := front.append ((apart _).1.append (right a'' inner k hk))
      simpa using whole

end Outlines

/-- Without a pair of parentheses of precedence a lexer finds the outline of what is left. -/
theorem Tidy.outlines_ungrouped {ps : List Piece} (h : Tidy ps) (words : ∀ p ∈ ps, p.VerbatimWord)
    {a b z : List Piece} (pair : ps = a ++ .groupOpen :: b ++ .groupClose :: z)
    (hb : Balanced (outlineOf b)) {k : List Char} (hk : Ends k) : Outlines (a ++ b ++ z) k := by
  have ends (c : Char) (hc : c ∈ [' ', ',', ';', ')']) (k : List Char) : Ends (c :: k) := .cons hc k
  have comma (k : List Char) : Outlines [.fixed ",", .space] k ∧ Ends (',' :: ' ' :: k) :=
    ⟨.cons (.fixed rfl (firstPiece_comma _)) (.space k), ends ',' (by decide) _⟩
  have semicolon (k : List Char) : Outlines [.fixed ";", .space] k ∧ Ends (';' :: ' ' :: k) :=
    ⟨.cons (.fixed rfl (firstPiece_semicolon _)) (.space k), ends ';' (by decide) _⟩
  induction h generalizing a z k with
  | nil => exact absurd (congrArg List.length pair) (by simp)
  | @one p alone =>
    have inside : Piece.groupOpen ∈ [p] := by simp [pair]
    rw [← List.mem_singleton.mp inside] at alone
    exact Bool.noConfusion alone
  | @spaced l r hl hr ihl ihr =>
    exact .joined hl hr words (fun k => ⟨.space k, ends ' ' (by decide) k⟩) (by decide) pair hb
      (fun z' hz k hk => ihl (fun p hp => words p (by simp [hp])) hz hk)
      (fun a' ha k hk => ihr (fun p hp => words p (by simp [hp])) ha hk) hk
  | @listed l r hl hr ihl ihr =>
    exact .joined hl hr words comma (by decide) pair hb
      (fun z' hz k hk => ihl (fun p hp => words p (by simp [hp])) hz hk)
      (fun a' ha k hk => ihr (fun p hp => words p (by simp [hp])) ha hk) hk
  | @ended l r hl hr ihl ihr =>
    exact .joined hl hr words semicolon (by decide) pair hb
      (fun z' hz k hk => ihl (fun p hp => words p (by simp [hp])) hz hk)
      (fun a' ha k hk => ihr (fun p hp => words p (by simp [hp])) ha hk) hk
  | enclosed _ ih =>
    obtain ⟨a, z, rfl, rfl, inside⟩ := pair_of_between Piece.noConfusion Piece.noConfusion pair
    have inner := ih (fun p hp => words p (by simp [hp])) inside (ends ')' (by decide) k)
    simpa using inner.between
  | @grouped ps hps ih =>
    have inner : ∀ p ∈ ps, p.VerbatimWord := fun p hp => words p (by simp [hp])
    rcases pair_of_grouped hps.balanced_outline hb pair with
      ⟨rfl, rfl, rfl⟩ | ⟨a, z, rfl, rfl, inside⟩
    · rw [List.nil_append, List.append_nil]
      exact .of_lexes inner (hps.lexes inner hk)
    · simpa using (ih inner inside (ends ')' (by decide) k)).grouped
  | @called p ps label _ ih =>
    have first : p ≠ .groupOpen := by
      rintro rfl
      exact Bool.noConfusion label
    obtain ⟨a, rfl, behind⟩ := pair_of_cons first pair
    obtain ⟨a, z, rfl, rfl, inside⟩ := pair_of_between Piece.noConfusion Piece.noConfusion behind
    have inner := (ih (fun p hp => words p (by simp [hp])) inside (ends ')' (by decide) k)).between
    have name : Outlines [p] (charsOf (.fixed "(" :: (a ++ b ++ z) ++ [.fixed ")"]) ++ k) :=
      .of_lexes (List.forall_mem_singleton.mpr (words p (by simp)))
        (.label label (.cons (c := '(') (by decide) _))
    simpa using name.cons inner
  | @dotted p q ps label member _ ih =>
    have first : p ≠ .groupOpen := by
      rintro rfl
      exact Bool.noConfusion label
    have second : q ≠ .groupOpen := by
      rintro rfl
      exact Bool.noConfusion member
    obtain ⟨a, rfl, dotted⟩ := pair_of_cons first pair
    obtain ⟨a, rfl, inside⟩ := pair_of_cons Piece.noConfusion dotted
    obtain ⟨a, rfl, -⟩ := pair_of_cons second inside
    obtain ⟨c, rest, chars, digit⟩ := Piece.chars_of_isMember member
    have inner := ih (fun p hp => words p (List.mem_cons_of_mem _ (List.mem_cons_of_mem _ hp)))
      inside hk
    have dot : Outlines [.fixed "."] (charsOf (q :: a ++ b ++ z) ++ k) := by
      rw [List.cons_append, List.cons_append, charsOf_cons, chars]
      exact .fixed rfl (firstPiece_dot digit _)
    have name : Outlines [p] (charsOf (.fixed "." :: (q :: a ++ b ++ z)) ++ k) :=
      .of_lexes (List.forall_mem_singleton.mpr (words p (by simp)))
        (.label label (.cons (c := '.') (by decide) _))
    exact name.cons (dot.cons inner)
  | @signed m p ps hm _ _ _ ih =>
    obtain ⟨a, rfl, inside⟩ := pair_of_cons Piece.noConfusion pair
    have rest := ih (fun p hp => words p (List.mem_cons_of_mem _ hp)) inside hk
    exact (Outlines.mark hm _).cons rest

end SqliteSyntax
