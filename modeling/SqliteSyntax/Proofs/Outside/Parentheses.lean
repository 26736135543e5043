import SqliteSyntax.Proofs.Outside.Comments

/-! # Parentheses balance outside of quotes

`net` counts the parentheses that are open at the end of a text. A text is balanced when none closes
before it was opened and none is left open; balanced texts may follow one another and may stand
between parentheses, and tidy text is put together in no other way (`Tidy.balanced`). -/
namespace SqliteSyntax
set_option autoImplicit false

/-! ## Open parentheses -/

/-- What a mark adds to the number of open parentheses. -/
def Mark.step (m : Mark) : Int := if m = .plain '(' then 1 else if m = .plain ')' then -1 else 0

/-- Parentheses opened less parentheses closed. -/
def net : List Mark → Int
  | [] => 0
  | m :: rest => m.step + net rest

/-- Every parenthesis that closes was opened, and every one that was opened closes. -/
structure Balanced (marks : List Mark) : Prop where
  /-- The depth does not fall below zero. -/
  opened : ∀ front, front <+: marks → 0 ≤ net front
  /-- At the end no parenthesis is open. -/
  closed : net marks = 0

theorem net_append (a b : List Mark) : net (a ++ b) = net a + net b := by
  induction a with
  | nil => exact (Int.zero_add _).symm
  | cons m rest ih => rw [List.cons_append, net, net, ih, Int.add_assoc]

theorem net_of_level {marks : List Mark} (h : ∀ m ∈ marks, m.step = 0) : net marks = 0 := by
  induction marks with
  | nil => rfl
  | cons m rest ih =>
    rw [net, h m (List.mem_cons_self ..), ih fun n hn => h n (List.mem_cons_of_mem m hn),
      Int.add_zero]

/-! ## Balanced texts -/

namespace Balanced

theorem of_level {marks : List Mark} (h : ∀ m ∈ marks, m.step = 0) : Balanced marks where
  opened _ hf := Int.le_of_eq (net_of_level fun m hm => h m (hf.subset hm)).symm
  closed := net_of_level h

theorem nil : Balanced [] := of_level (by simp)

theorem append {a b : List Mark} (ha : Balanced a) (hb : Balanced b) : Balanced (a ++ b) where
  opened front hf := by
    obtain ⟨back, whole⟩ := hf
    rcases List.append_eq_append_iff.mp whole with ⟨rest, ha', -⟩ | ⟨rest, rfl, hb'⟩
    · exact ha.opened front (ha' ▸ List.prefix_append front rest)
    · rw [net_append, ha.closed, Int.zero_add]
      exact hb.opened rest (hb' ▸ List.prefix_append rest back)
  closed := by rw [net_append, ha.closed, hb.closed, Int.add_zero]

theorem cons {m : Mark} {marks : List Mark} (hm : m.step = 0) (h : Balanced marks) :
    Balanced (m :: marks) :=
  append (a := [m]) (of_level (by simpa using hm)) h

theorem wrap {marks : List Mark} (h : Balanced marks) :
    Balanced (.plain '(' :: marks ++ [.plain ')']) where
  opened front hf := by
    rw [List.cons_append] at hf
    rcases List.prefix_cons_iff.mp hf with rfl | ⟨inner, rfl, hi⟩
    · exact Int.le_refl 0
    have opening : Mark.step (.plain '(') = 1 := by decide
    rcases List.prefix_concat_iff.mp hi with rfl | hi
    · rw [net, net_append, h.closed]
      decide
    · have := h.opened inner hi
      rw [net, opening]
      omega
  closed := by
    rw [List.cons_append, net, net_append, h.closed]
    decide

end Balanced

/-! ## Tidy text -/

/-- A piece that may stand alone has no semicolon and no parenthesis outside of quotes. -/
theorem Piece.plain_not_mem_marks {p : Piece} (h : p.standsAlone = true)
    (given : ∀ v, p = .verbatim v → Unbroken v.toList) {c : Char} (hc : c ∈ [';', '(', ')']) :
    Mark.plain c ∉ p.marks := by
  have unbroken {cs : List Char} (hcs : Unbroken cs) : Mark.plain c ∉ cs.map Mark.plain := by
    intro hm
    obtain ⟨d, hd, same⟩ := List.mem_map.mp hm
    cases same
    have breaking : [';', '(', ')'].all isBreaking = true := by decide
    exact absurd (List.all_eq_true.mp breaking c hc) (by simp [hcs c hd])
  cases p with
  | fixed t =>
    rw [standsAlone, Bool.or_eq_true] at h
    rcases h with hw | ho
    · exact unbroken (unbroken_of_isWord hw)
    · have marks : ∀ t ∈ operatorMarks,
          [';', '(', ')'].all (fun c => decide (Mark.plain c ∉ (Piece.fixed t).marks)) = true := by
        decide
      exact of_decide_eq_true (List.all_eq_true.mp (marks t (of_decide_eq_true ho)) c hc)
  | numeral digits =>
    intro hm
    obtain ⟨d, hd, same⟩ := List.mem_map.mp hm
    cases same
    have numeral := Numeral.isNumeralChar_of_isWritten h c hd
    have others : [';', '(', ')'].all (!Numeral.isNumeralChar ·) = true := by decide
    have other := List.all_eq_true.mp others c hc
    rw [numeral] at other
    exact Bool.noConfusion other
  | name content => simp [marks]
  | text content => simp [marks]
  | blob bytes =>
    have others : [';', '(', ')'].all (· != 'X') = true := by decide
    have other := List.all_eq_true.mp others c hc
    simpa [marks] using other
  | verbatim v => exact unbroken (given v rfl)
  | space => exact Bool.noConfusion h
  | groupOpen => exact Bool.noConfusion h
  | groupClose => exact Bool.noConfusion h

theorem Piece.step_marks {p : Piece} (h : p.standsAlone = true)
    (given : ∀ v, p = .verbatim v → Unbroken v.toList) : ∀ m ∈ p.marks, m.step = 0 := by
  intro m hm
  have opening : m ≠ .plain '(' := fun same =>
    plain_not_mem_marks h given (c := '(') (by decide) (same ▸ hm)
  have closing : m ≠ .plain ')' := fun same =>
    plain_not_mem_marks h given (c := ')') (by decide) (same ▸ hm)
  rw [Mark.step, if_neg opening, if_neg closing]

/-- The parentheses of tidy text balance, if none is given as it stands. -/
theorem Tidy.balanced {ps : List Piece} (h : Tidy ps)
    (given : ∀ v, Piece.verbatim v ∈ ps → Unbroken v.toList) : Balanced (marksOf ps) := by
  have one {p : Piece} {ps : List Piece} (hp : p.standsAlone = true)
      (given : ∀ v, Piece.verbatim v ∈ p :: ps → Unbroken v.toList) : Balanced p.marks :=
    .of_level (Piece.step_marks hp fun v hv => given v (hv ▸ List.mem_cons_self ..))
  induction h with
  | nil => exact .nil
  | @one p hp =>
    rw [marksOf, List.flatMap_singleton]
    exact one hp given
  | spaced _ _ ihl ihr =>
    rw [marksOf_append]
    have right := ihr fun v hv => given v (by simp [hv])
    exact (ihl fun v hv => given v (by simp [hv])).append (.cons (m := .plain ' ') rfl right)
  | listed _ _ ihl ihr =>
    rw [marksOf_append]
    have right := ihr fun v hv => given v (by simp [hv])
    exact (ihl fun v hv => given v (by simp [hv])).append
      (.cons (m := .plain ',') rfl (.cons (m := .plain ' ') rfl right))
  | ended _ _ ihl ihr =>
    rw [marksOf_append]
    have right := ihr fun v hv => given v (by simp [hv])
    exact (ihl fun v hv => given v (by simp [hv])).append
      (.cons (m := .plain ';') rfl (.cons (m := .plain ' ') rfl right))
  | enclosed _ ih =>
    rw [marksOf_append]
    exact (ih fun v hv => given v (by simp [hv])).wrap
  | grouped _ ih =>
    rw [marksOf_append]
    exact (ih fun v hv => given v (by simp [hv])).wrap
  | called label _ ih =>
    rw [List.cons_append, marksOf, List.flatMap_cons, ← marksOf, marksOf_append]
    have inner := ih fun v hv => given v (by simp [hv])
    exact (one (Piece.standsAlone_of_isLabel label) given).append inner.wrap
  | dotted label _ _ ih =>
    have rest := ih fun v hv => given v (List.mem_cons_of_mem _ (List.mem_cons_of_mem _ hv))
    exact (one (Piece.standsAlone_of_isLabel label) given).append (.cons (m := .plain '.') rfl rest)
  | signed hm _ _ _ ih =>
    have rest := ih fun v hv => given v (List.mem_cons_of_mem _ hv)
    have signs : ∀ m ∈ prefixMarks, ∀ n ∈ (Piece.fixed m).marks, n.step = 0 := by decide
    exact (Balanced.of_level (signs _ hm)).append rest

end SqliteSyntax
