import SqliteSyntax.Proofs.Outside.Parentheses
import SqliteSyntax.Proofs.Reading.Lexing

/-! # Outlines

The outline of pieces keeps their parentheses and the characters of all other pieces, and leaves out
the spaces. Ink is what no reader may add or leave out: all characters but blanks and parentheses. So
a place in a text is known by the ink before it, whatever parentheses stand there.

A balanced part that shows ink outside of its own parentheses, in a place that has ink next to it on
the same level, is not what stands between two parentheses (`Exposed.not_enclosed`). -/
namespace SqliteSyntax
set_option autoImplicit false

/-! ## Outlines and ink -/

/-- A character of a piece that is no parenthesis of the text. -/
def Mark.solid (c : Char) : Mark := .quoted c []

/-- The parenthesis that a piece is, or its characters. -/
def Piece.outline : Piece → List Mark
  | .space => []
  | .groupOpen => [.plain '(']
  | .groupClose => [.plain ')']
  | .fixed t =>
    if t = "(" then [.plain '('] else if t = ")" then [.plain ')'] else t.toList.map Mark.solid
  | p => p.chars.map Mark.solid

def outlineOf (ps : List Piece) : List Mark := ps.flatMap Piece.outline

@[simp] theorem outlineOf_nil : outlineOf [] = [] := rfl

@[simp] theorem outlineOf_cons (p : Piece) (ps : List Piece) :
    outlineOf (p :: ps) = p.outline ++ outlineOf ps := rfl

@[simp] theorem outlineOf_append (a b : List Piece) :
    outlineOf (a ++ b) = outlineOf a ++ outlineOf b :=
  List.flatMap_append

@[simp] theorem Piece.outline_open : (Piece.fixed "(").outline = [.plain '('] := rfl

@[simp] theorem Piece.outline_close : (Piece.fixed ")").outline = [.plain ')'] := rfl

@[simp] theorem Piece.outline_groupOpen : Piece.groupOpen.outline = [.plain '('] := rfl

@[simp] theorem Piece.outline_groupClose : Piece.groupClose.outline = [.plain ')'] := rfl

@[simp] theorem Piece.outline_space : Piece.space.outline = [] := rfl

def isInk (c : Char) : Bool := c != ' ' && c != '(' && c != ')'

def Mark.isInk : Mark → Bool
  | .plain _ => false
  | .quoted c _ => SqliteSyntax.isInk c

/-- How much ink there is. -/
def ink (marks : List Mark) : Nat := marks.countP Mark.isInk

@[simp] theorem ink_nil : ink [] = 0 := rfl

@[simp] theorem ink_append (a b : List Mark) : ink (a ++ b) = ink a + ink b := List.countP_append

@[simp] theorem ink_plain (c : Char) (marks : List Mark) : ink (.plain c :: marks) = ink marks :=
  List.countP_cons_of_neg (by simp [Mark.isInk])

theorem ink_cons {m : Mark} (h : m.isInk = true) (marks : List Mark) :
    ink (m :: marks) = ink marks + 1 :=
  List.countP_cons_of_pos h

/-- The ink of a text. -/
def inkIn (cs : List Char) : Nat := cs.countP isInk

/-- The ink of pieces. -/
def inkOf (ps : List Piece) : Nat := inkIn (charsOf ps)

@[simp] theorem inkOf_append (a b : List Piece) : inkOf (a ++ b) = inkOf a + inkOf b := by
  rw [inkOf, inkIn, charsOf_append, List.countP_append]
  rfl

@[simp] theorem inkOf_nil : inkOf [] = 0 := rfl

theorem inkOf_cons (p : Piece) (ps : List Piece) : inkOf (p :: ps) = inkOf [p] + inkOf ps :=
  inkOf_append [p] ps

@[simp] theorem inkOf_space (ps : List Piece) : inkOf (.space :: ps) = inkOf ps :=
  List.countP_cons_of_neg (p := isInk) (a := ' ') (by decide)

@[simp] theorem inkOf_open (ps : List Piece) : inkOf (.fixed "(" :: ps) = inkOf ps :=
  List.countP_cons_of_neg (p := isInk) (a := '(') (by decide)

@[simp] theorem inkOf_close (ps : List Piece) : inkOf (.fixed ")" :: ps) = inkOf ps :=
  List.countP_cons_of_neg (p := isInk) (a := ')') (by decide)

@[simp] theorem inkOf_groupOpen (ps : List Piece) : inkOf (.groupOpen :: ps) = inkOf ps :=
  List.countP_cons_of_neg (p := isInk) (a := '(') (by decide)

@[simp] theorem inkOf_groupClose (ps : List Piece) : inkOf (.groupClose :: ps) = inkOf ps :=
  List.countP_cons_of_neg (p := isInk) (a := ')') (by decide)

/-- Whether a piece is a parenthesis, of precedence or of another kind. -/
def Piece.isParen : Piece → Bool
  | .groupOpen | .groupClose => true
  | .fixed t => t == "(" || t == ")"
  | _ => false

theorem Piece.outline_of_isParen {p : Piece} (h : p.isParen = false) :
    p.outline = if p = .space then [] else p.chars.map Mark.solid := by
  cases p with
  | fixed t =>
    simp only [isParen, Bool.or_eq_false_iff, beq_eq_false_iff_ne] at h
    rw [outline, if_neg h.1, if_neg h.2, if_neg Piece.noConfusion]
    rfl
  | groupOpen => exact Bool.noConfusion h
  | groupClose => exact Bool.noConfusion h
  | _ => rfl

/-- What a piece is in an outline. -/
theorem Piece.outline_cases (p : Piece) :
    (p.chars = ['('] ∧ p.outline = [.plain '(']) ∨ (p.chars = [')'] ∧ p.outline = [.plain ')']) ∨
      p = .space ∨ p.outline = p.chars.map Mark.solid := by
  cases paren : p.isParen with
  | false =>
    rw [outline_of_isParen paren]
    split
    · next space => exact .inr (.inr (.inl space))
    · exact .inr (.inr (.inr rfl))
  | true =>
    cases p with
    | fixed t =>
      simp only [isParen, Bool.or_eq_true, beq_iff_eq] at paren
      rcases paren with rfl | rfl
      · exact .inl ⟨rfl, rfl⟩
      · exact .inr (.inl ⟨rfl, rfl⟩)
    | groupOpen => exact .inl ⟨rfl, rfl⟩
    | groupClose => exact .inr (.inl ⟨rfl, rfl⟩)
    | _ => exact Bool.noConfusion paren

theorem ink_outline (p : Piece) : ink p.outline = inkOf [p] := by
  have whole : inkOf [p] = inkIn p.chars := by simp [inkOf]
  rcases p.outline_cases with ⟨chars, outline⟩ | ⟨chars, outline⟩ | rfl | outline
  · rw [whole, chars, outline]
    rfl
  · rw [whole, chars, outline]
    rfl
  · rfl
  · rw [whole, outline, ink, List.countP_map]
    rfl

@[simp] theorem ink_outlineOf (ps : List Piece) : ink (outlineOf ps) = inkOf ps := by
  induction ps with
  | nil => rfl
  | cons p rest ih => rw [outlineOf_cons, ink_append, ih, ink_outline, inkOf_cons p rest]

/-! ## Balanced parts -/

@[simp] theorem net_open (marks : List Mark) : net (.plain '(' :: marks) = 1 + net marks := rfl

@[simp] theorem net_close (marks : List Mark) : net (.plain ')' :: marks) = -1 + net marks := rfl

theorem Mark.step_of_isInk {m : Mark} (h : m.isInk = true) : m.step = 0 := by
  cases m with
  | plain c => exact Bool.noConfusion h
  | quoted c content => rfl

theorem net_ink {m : Mark} (h : m.isInk = true) (marks : List Mark) :
    net (m :: marks) = net marks := by
  rw [net, m.step_of_isInk h, Int.zero_add]

theorem Piece.step_outline {p : Piece} (h : p.isParen = false) : ∀ m ∈ p.outline, m.step = 0 := by
  rw [outline_of_isParen h]
  intro m hm
  split at hm
  · exact absurd hm List.not_mem_nil
  · obtain ⟨c, -, rfl⟩ := List.mem_map.mp hm
    rfl

namespace Balanced

theorem net_front {a b : List Mark} (h : Balanced (a ++ b)) : 0 ≤ net a :=
  h.opened a (List.prefix_append a b)

theorem net_back {a b : List Mark} (h : Balanced (a ++ b)) : net b ≤ 0 := by
  have whole := h.closed
  have left := h.net_front
  rw [net_append] at whole
  omega

theorem left {a b : List Mark} (h : Balanced (a ++ b)) (ha : net a = 0) : Balanced a where
  opened front hf := h.opened front (hf.trans (List.prefix_append a b))
  closed := ha

/-- What balances still does without two parentheses that belong together. -/
theorem unwrap {a b z : List Mark} (h : Balanced (a ++ .plain '(' :: b ++ .plain ')' :: z))
    (hb : Balanced b) : Balanced (a ++ b ++ z) where
  opened front hf := by
    have before : 0 ≤ net a := by
      rw [List.append_assoc] at h
      exact h.net_front
    obtain ⟨back, cut⟩ := hf
    rw [List.append_assoc] at cut
    rcases List.append_eq_append_iff.mp cut with ⟨w, rfl, -⟩ | ⟨f, rfl, inside⟩
    · exact h.opened front ⟨w ++ .plain '(' :: b ++ .plain ')' :: z, by simp⟩
    · rcases List.append_eq_append_iff.mp inside with ⟨g, rfl, rfl⟩ | ⟨w, rfl, -⟩
      · have opened := h.opened (a ++ .plain '(' :: b ++ .plain ')' :: g) ⟨back, by simp⟩
        simp only [net_append, net_open, net_close, hb.closed] at opened ⊢
        omega
      · have opened := hb.net_front
        rw [net_append]
        omega
  closed := by
    have closed := h.closed
    simp only [net_append, net_open, net_close, hb.closed] at closed ⊢
    omega

/-- The parenthesis that closes a balanced part is known. -/
theorem close_unique {a b c d : List Mark} (ha : Balanced a) (hb : Balanced b)
    (h : a ++ .plain ')' :: c = b ++ .plain ')' :: d) : a = b ∧ c = d := by
  have shorter {a b c d : List Mark} (ha : Balanced a) (hb : Balanced b) {m : Mark} {w : List Mark}
      (long : a = b ++ m :: w) (h : m :: w ++ .plain ')' :: c = .plain ')' :: d) : False := by
    obtain ⟨rfl, -⟩ := List.cons.inj h
    have opened := (show Balanced ((b ++ [.plain ')']) ++ w) by simpa [long] using ha).net_front
    rw [net_append, hb.closed] at opened
    exact absurd opened (by decide)
  rcases List.append_eq_append_iff.mp h with ⟨w, long, rest⟩ | ⟨w, long, rest⟩
  · cases w with
    | nil =>
      rw [List.append_nil] at long
      exact ⟨long.symm, (List.cons.inj rest).2⟩
    | cons m w => exact (shorter hb ha long rest.symm).elim
  · cases w with
    | nil =>
      rw [List.append_nil] at long
      exact ⟨long, (List.cons.inj rest).2.symm⟩
    | cons m w => exact (shorter ha hb long rest.symm).elim

end Balanced

theorem balanced_of_isParen {ps : List Piece} (h : ∀ p ∈ ps, p.isParen = false) :
    Balanced (outlineOf ps) := by
  refine .of_level fun m hm => ?_
  obtain ⟨p, hp, hm⟩ := List.mem_flatMap.mp hm
  exact p.step_outline (h p hp) m hm

/-! ## Places in an outline -/

/-- A mark with ink is on the side of a cut that the ink before it tells. -/
theorem cut_after {x y s t : List Mark} {q : Mark}
    (h : x ++ q :: y = s ++ t) (before : ink x < ink s) : ∃ w, s = x ++ q :: w ∧ y = w ++ t := by
  rcases List.append_eq_append_iff.mp h with ⟨w, rfl, rest⟩ | ⟨w, rfl, rest⟩
  · cases w with
    | nil =>
      rw [List.append_nil] at before
      exact absurd before (Nat.lt_irrefl _)
    | cons m w =>
      obtain ⟨rfl, rfl⟩ := List.cons.inj rest
      exact ⟨w, rfl, rfl⟩
  · rw [ink_append] at before
    omega

theorem cut_before {x y s t : List Mark} {q : Mark} (hq : q.isInk = true)
    (h : x ++ q :: y = s ++ t) (before : ink s ≤ ink x) : ∃ w, t = w ++ q :: y ∧ x = s ++ w := by
  rcases List.append_eq_append_iff.mp h with ⟨w, rfl, rest⟩ | ⟨w, rfl, rest⟩
  · cases w with
    | nil => exact ⟨[], by simpa using rest.symm, by simp⟩
    | cons m w =>
      obtain ⟨rfl, rfl⟩ := List.cons.inj rest
      rw [ink_append, ink_cons hq] at before
      omega
  · exact ⟨w, rest, rfl⟩

/-- There is ink outside of all parentheses. -/
def Exposed (marks : List Mark) : Prop :=
  ∃ x q y, marks = x ++ q :: y ∧ q.isInk = true ∧ Balanced x ∧ Balanced y

/-- Between the two parts, to the left or to the right, there is ink on the same level. -/
def Anchored (before behind : List Mark) : Prop :=
  (∃ x q y, before = x ++ q :: y ∧ q.isInk = true ∧ Balanced y) ∨
    ∃ x q y, behind = x ++ q :: y ∧ q.isInk = true ∧ Balanced x

/-- Ink outside of all parentheses is next to a pair that stands outside of all others. -/
theorem Exposed.anchored {a b z : List Mark} (ha : Balanced a) (hb : Balanced b) (hz : Balanced z)
    (h : Exposed (a ++ .plain '(' :: b ++ .plain ')' :: z)) : Anchored a z := by
  obtain ⟨x, q, y, whole, hq, hx, hy⟩ := h
  by_cases left : ink x < ink a
  · have cut : x ++ q :: y = a ++ (.plain '(' :: b ++ .plain ')' :: z) := by simpa using whole.symm
    obtain ⟨w, rfl, rfl⟩ := cut_after cut left
    refine .inl ⟨x, q, w, rfl, hq, hy.left ?_⟩
    have level := ha.closed
    rwa [net_append, net_ink hq, hx.closed, Int.zero_add] at level
  by_cases right : ink (a ++ .plain '(' :: b ++ [.plain ')']) ≤ ink x
  · have cut : x ++ q :: y = (a ++ .plain '(' :: b ++ [.plain ')']) ++ z := by
      simpa using whole.symm
    obtain ⟨w, rfl, -⟩ := cut_before hq cut right
    refine .inr ⟨w, q, y, rfl, hq, hz.left ?_⟩
    have level := hz.closed
    rwa [net_append, net_ink hq, hy.closed, Int.add_zero] at level
  -- Ink between the two parentheses is not outside of all.
  simp only [ink_append, ink_plain, ink_nil] at left right
  obtain ⟨w, inside, -⟩ := cut_after (s := a ++ .plain '(' :: b) whole.symm
    (by simp only [ink_append, ink_plain]; omega)
  have inside : x ++ q :: w = (a ++ [.plain '(']) ++ b := by simpa using inside.symm
  obtain ⟨u, rfl, rfl⟩ := cut_before hq inside
    (by simp only [ink_append, ink_plain, ink_nil]; omega)
  have opened := hb.net_front
  have level := hx.closed
  rw [net_append, net_append, ha.closed, net_open] at level
  have nothing : net [] = 0 := rfl
  omega

/-- Parentheses around this ink cannot stand where the part has none: the ink outside of the
parentheses of the part would be deeper inside than the ink next to it. -/
theorem Exposed.not_enclosed {a b c a' b' c' : List Mark} (exposed : Exposed b)
    (anchored : Anchored a c) (same : a ++ b ++ c = a' ++ .plain '(' :: b' ++ .plain ')' :: c')
    (hb : Balanced b') (start : ink a' = ink a) (size : ink b' = ink b) : False := by
  obtain ⟨x, q, y, rfl, hq, hx, hy⟩ := exposed
  have whole : (a ++ x) ++ q :: (y ++ c) = (a' ++ .plain '(' :: b') ++ .plain ')' :: c' := by
    simpa using same
  rw [ink_append, ink_cons hq] at size
  -- The exposed ink stands between the parentheses.
  obtain ⟨v, inside, behind⟩ := cut_after whole (by simp only [ink_append, ink_plain]; omega)
  have inside : (a ++ x) ++ q :: v = (a' ++ [.plain '(']) ++ b' := by simpa using inside.symm
  obtain ⟨u, rfl, before⟩ := cut_before hq inside (by
    simp only [ink_append, ink_plain]
    exact Nat.add_le_add (Nat.le_of_eq start) (Nat.zero_le _))
  have before : a ++ x = a' ++ .plain '(' :: u := by simpa using before
  have length := congrArg ink before
  simp only [ink_append, ink_plain] at length
  rw [ink_append, ink_cons hq] at size
  rcases anchored with ⟨x₀, q₀, y₀, rfl, hq₀, hy₀⟩ | ⟨x₀, q₀, y₀, rfl, hq₀, hx₀⟩
  · -- With ink on the left, what stands between the two ends no deeper than it began.
    rw [ink_append, ink_cons hq₀] at start
    have whole : x₀ ++ q₀ :: (y₀ ++ x) = a' ++ .plain '(' :: u := by simpa using before
    obtain ⟨w, -, flat⟩ := cut_after whole (by omega)
    have closed := (show Balanced (w ++ .plain '(' :: u) from flat ▸ hy₀.append hx).net_back
    have opened := hb.net_front
    rw [net_open] at closed
    omega
  · -- With ink on the right, what stands between the two never comes up.
    have whole : (y ++ x₀) ++ q₀ :: y₀ = (v ++ [.plain ')']) ++ c' := by simpa using behind
    obtain ⟨w, -, flat⟩ := cut_before hq₀ whole
      (by simp only [ink_append, ink_plain, ink_nil]; omega)
    have opened := (flat ▸ hy.append hx₀ : Balanced (v ++ [.plain ')'] ++ w)).net_front
    have closed := hb.net_back
    rw [net_append, net_close] at opened
    rw [net_ink hq] at closed
    have nothing : net [] = 0 := rfl
    omega

end SqliteSyntax
