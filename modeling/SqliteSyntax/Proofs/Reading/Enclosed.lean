import SqliteSyntax.Proofs.Reading.Forms

/-! # Where parentheses close

In tidy text parentheses come in pairs (`Tidy.closes`), so the query between two of them is found
whole, however many it has inside. -/
namespace SqliteSyntax
set_option autoImplicit false

/-- Every parenthesis that the pieces open they close. -/
def Closes (ps : List Piece) : Prop :=
  ∀ depth k, closing depth (ps ++ k) =
    (closing depth k).map fun split => (ps ++ split.1, split.2)

theorem closing_other {p : Piece} (h : p ≠ .fixed ")") (depth : Nat) (ps : List Piece) :
    closing depth (p :: ps) =
      (closing (if p = .fixed "(" then depth + 1 else depth) ps).map fun split =>
        (p :: split.1, split.2) := by
  rw [closing.eq_def]
  exact if_neg h

theorem closing_open (depth : Nat) (ps : List Piece) :
    closing depth (.fixed "(" :: ps) =
      (closing (depth + 1) ps).map fun split => (.fixed "(" :: split.1, split.2) :=
  closing_other (by decide) depth ps

theorem closing_close (depth : Nat) (ps : List Piece) :
    closing (depth + 1) (.fixed ")" :: ps) =
      (closing depth ps).map fun split => (.fixed ")" :: split.1, split.2) := by
  rw [closing, if_pos rfl]

namespace Closes

theorem nil : Closes [] := by
  intro depth k
  simp

theorem append {a b : List Piece} (ha : Closes a) (hb : Closes b) : Closes (a ++ b) := by
  intro depth k
  rw [List.append_assoc, ha, hb, Option.map_map]
  congr 1
  funext split
  rw [Function.comp_apply, List.append_assoc]

theorem cons {p : Piece} {ps : List Piece} (hp : Closes [p]) (hps : Closes ps) :
    Closes (p :: ps) :=
  append (a := [p]) hp hps

theorem piece {p : Piece} (opening : p ≠ .fixed "(") (closing : p ≠ .fixed ")") : Closes [p] := by
  intro depth k
  rw [List.singleton_append, closing_other closing, if_neg opening]
  rfl

theorem parenthesized {ps : List Piece} (h : Closes ps) : Closes (parenthesized ps) := by
  intro depth k
  have text : SqliteSyntax.parenthesized ps ++ k = .fixed "(" :: (ps ++ .fixed ")" :: k) := by
    simp [SqliteSyntax.parenthesized]
  rw [text, closing_open, h, closing_close, Option.map_map, Option.map_map]
  congr 1
  funext split
  simp [SqliteSyntax.parenthesized]

end Closes

theorem isWord_ne {t u : String} (h : isWord t = true) (hu : isWord u = false) : t ≠ u := by
  rintro rfl
  rw [h] at hu
  exact Bool.noConfusion hu

theorem Closes.word {t : String} (h : isWord t = true) : Closes [.fixed t] := by
  refine .piece (fun heq => ?_) fun heq => ?_
  · exact isWord_ne h (by decide) (Piece.fixed.inj heq)
  · exact isWord_ne h (by decide) (Piece.fixed.inj heq)

theorem Closes.numeral (digits : String) : Closes (plainNumeral digits) := by
  have sign (t : String) (opening : t ≠ "(") (closing : t ≠ ")") : Closes [.fixed t] :=
    .piece (fun h => opening (Piece.fixed.inj h)) fun h => closing (Piece.fixed.inj h)
  have bare (t : String) : Closes [.numeral t] :=
    .piece (fun h => Piece.noConfusion h) fun h => Piece.noConfusion h
  unfold plainNumeral
  split
  · exact .cons (sign "-" (by decide) (by decide)) (bare _)
  · exact .cons (sign "+" (by decide) (by decide)) (bare _)
  · exact bare _

theorem Closes.alone {p : Piece} (alone : p.standsAlone = true) (word : p.VerbatimWord) :
    Closes p.plain := by
  cases p with
  | fixed t =>
    rw [Piece.standsAlone, Bool.or_eq_true, decide_eq_true_eq] at alone
    rcases alone with h | h
    · exact .word h
    · have marks : ∀ t ∈ operatorMarks, t ≠ "(" ∧ t ≠ ")" := by decide
      exact .piece (fun heq => (marks t h).1 (Piece.fixed.inj heq))
        fun heq => (marks t h).2 (Piece.fixed.inj heq)
  | numeral digits => exact .numeral digits
  | verbatim content => exact .word word
  | name content => exact .piece (fun h => Piece.noConfusion h) fun h => Piece.noConfusion h
  | text content => exact .piece (fun h => Piece.noConfusion h) fun h => Piece.noConfusion h
  | blob bytes => exact .piece (fun h => Piece.noConfusion h) fun h => Piece.noConfusion h
  | _ => exact Bool.noConfusion alone

/-- Parentheses come in pairs in tidy text. -/
theorem Tidy.closes {ps : List Piece} (h : Tidy ps) (words : ∀ p ∈ ps, p.VerbatimWord) :
    Closes (plainOf ps) := by
  have space : Closes [.space] :=
    .piece (fun h => Piece.noConfusion h) fun h => Piece.noConfusion h
  have mark (t : String) (opening : t ≠ "(") (closing : t ≠ ")") : Closes [.fixed t] :=
    .piece (fun h => opening (Piece.fixed.inj h)) fun h => closing (Piece.fixed.inj h)
  induction h with
  | nil => exact .nil
  | one alone =>
    rw [plainOf_cons, plainOf_nil, List.append_nil]
    exact .alone alone (words _ (List.mem_singleton.mpr rfl))
  | spaced _ _ ihl ihr =>
    have left := ihl fun p hp => words p (by simp [hp])
    have right := ihr fun p hp => words p (by simp [hp])
    rw [plainOf_append, plainOf_cons]
    exact left.append (.cons space right)
  | listed _ _ ihl ihr =>
    have left := ihl fun p hp => words p (by simp [hp])
    have right := ihr fun p hp => words p (by simp [hp])
    rw [plainOf_append, plainOf_cons, plainOf_cons]
    exact left.append (.cons (mark "," (by decide) (by decide)) (.cons space right))
  | ended _ _ ihl ihr =>
    have left := ihl fun p hp => words p (by simp [hp])
    have right := ihr fun p hp => words p (by simp [hp])
    rw [plainOf_append, plainOf_cons, plainOf_cons]
    exact left.append (.cons (mark ";" (by decide) (by decide)) (.cons space right))
  | @enclosed a _ ih =>
    have inner := ih fun p hp => words p (by simp [hp])
    have whole := inner.parenthesized
    rwa [← plainOf_parenthesized] at whole
  | @grouped a _ ih =>
    have inner := ih fun p hp => words p (by simp [hp])
    have whole := inner.parenthesized
    rw [plainOf_append, plainOf_cons]
    exact whole
  | @called p a label _ ih =>
    have inner := ih fun p hp => words p (by simp [hp])
    have whole := inner.parenthesized
    rw [← plainOf_parenthesized] at whole
    rw [List.cons_append, plainOf_cons]
    exact (Closes.alone (Piece.standsAlone_of_isLabel label) (words p (List.mem_cons_self ..))).append
      whole
  | @dotted p q a label _ _ ih =>
    have first := Closes.alone (Piece.standsAlone_of_isLabel label) (words p (List.mem_cons_self ..))
    have rest := ih fun p hp => words p (List.mem_cons_of_mem _ (List.mem_cons_of_mem _ hp))
    rw [plainOf_cons, plainOf_cons]
    exact first.append (.cons (mark "." (by decide) (by decide)) rest)
  | @signed m p a hm _ _ _ ih =>
    have rest := ih fun p hp => words p (List.mem_cons_of_mem _ hp)
    have marks : ∀ t ∈ prefixMarks, t ≠ "(" ∧ t ≠ ")" := by decide
    rw [plainOf_cons]
    exact .cons (mark m (marks m hm).1 (marks m hm).2) rest

/-! ## Queries between parentheses -/

theorem Closes.closing {ps : List Piece} (h : Closes ps) (k : List Piece) :
    closing 0 (ps ++ .fixed ")" :: k) = some (ps, k) := by
  rw [h, SqliteSyntax.closing, if_pos rfl, Option.map_some, List.append_nil]

/-- A query begins with a word that begins no expression. -/
theorem Select.begins (q : Select) (k : List Piece) :
    beginsQuery (plainOf q.pieces ++ k) = true := by
  obtain ⟨withClause, body, compounds, orderBy, limit, offset⟩ := q
  cases withClause with
  | some w =>
    obtain ⟨recursive, tables⟩ := w
    cases recursive <;> simp [Select.pieces, withPieces, phrase, separated, token, Piece.plain,
      beginsQuery]
  | none =>
    cases body with
    | values rows => simp [Select.pieces, withPieces, SelectBody.pieces, Piece.plain, beginsQuery]
    | core core =>
      obtain ⟨distinct, columns, source, filter, groupBy, having⟩ := core
      cases distinct <;> simp [Select.pieces, withPieces, SelectBody.pieces, SelectCore.pieces, phrase,
        separated, token, Piece.plain, beginsQuery]

variable {Q : Type} {readQuery : List Piece → Option Q}

theorem ReadsEnclosed.of_query {query : Select} {q : Q}
    (words : ∀ p ∈ query.pieces, p.VerbatimWord)
    (h : readQuery (plainOf query.pieces) = some q) :
    ReadsEnclosed readQuery (plainOf query.pieces) q := by
  intro k
  refine ⟨query.begins _, ?_⟩
  rw [readEnclosed, (query.tidy.closes words).closing k]
  show (readQuery (plainOf query.pieces)).bind _ = _
  rw [h]
  rfl

end SqliteSyntax
