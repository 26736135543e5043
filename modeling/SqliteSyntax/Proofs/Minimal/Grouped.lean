import SqliteSyntax.Proofs.Minimal.Cover
import SqliteSyntax.Proofs.Pieces.Listed
import SqliteSyntax.Proofs.Pieces.Rendered

/-! # The parentheses of precedence are asked for

A pair of parentheses of precedence is one that a cover asks for, or one inside the text of a query
that the cover asks for (`Placed`). The part between the two shows ink, and there is ink next to the
pair. Parts with this property are put together as texts and covers are (`Grouped`). -/
namespace SqliteSyntax
set_option autoImplicit false

/-! ## Pairs in a cover -/

theorem Anchored.extend {a z : List Mark} (h : Anchored a z) (f g : List Mark) :
    Anchored (f ++ a) (z ++ g) := by
  rcases h with ⟨x, q, y, rfl, hq, hy⟩ | ⟨x, q, y, rfl, hq, hx⟩
  · exact .inl ⟨f ++ x, q, y, by simp, hq, hy⟩
  · exact .inr ⟨x, q, y ++ g, by simp, hq, hx⟩

@[simp] theorem Bracket.after_zero (k : Bracket) : k.after 0 = k := by
  rw [Bracket.after, Nat.zero_add]

/-- The cover asks for the pair between `a` and `z` with `b` inside, or for a query that has it
inside. A loose pair may be the outermost of its part, with no ink next to it. -/
inductive Placed (loose : Bool) (c : Cover) (a b z : List Piece) : Prop where
  | own (asked : ⟨inkOf a, .ink (inkOf b)⟩ ∈ c.brackets) (exposed : Exposed (outlineOf b))
    (next : Anchored (outlineOf a) (outlineOf z) ∨
      loose = true ∧ Balanced (outlineOf a) ∧ Balanced (outlineOf z))
  | queried {x q r y : List Piece} (before : a = x ++ .fixed "(" :: q)
    (behind : z = r ++ .fixed ")" :: y)
    (asked : ⟨inkOf x, .query (textOf (q ++ .groupOpen :: b ++ .groupClose :: r))⟩ ∈ c.brackets)
    (begins : ∃ c rest, charsOf q = c :: rest ∧ isInk c = true)
    (balanced : Balanced (outlineOf (q ++ b ++ r)))

/-- A pair stays in place when more text comes to the left and to the right. -/
theorem Placed.frame {l m : Bool} {c d : Cover} {a b z f g : List Piece} (h : Placed l c a b z)
    (asked : ∀ k ∈ c.brackets, k.after (inkOf f) ∈ d.brackets)
    (kept : l = true → m = true ∧ Balanced (outlineOf f) ∧ Balanced (outlineOf g)) :
    Placed m d (f ++ a) b (z ++ g) := by
  cases h with
  | own here exposed next =>
    refine .own ?_ exposed ?_
    · rw [inkOf_append]
      exact asked _ here
    · rw [outlineOf_append, outlineOf_append]
      rcases next with anchored | ⟨hl, ha, hz⟩
      · exact .inl (anchored.extend _ _)
      · obtain ⟨hm, hf, hg⟩ := kept hl
        exact .inr ⟨hm, hf.append ha, hz.append hg⟩
  | @queried x q r y before behind here begins balanced =>
    refine .queried (x := f ++ x) (y := y ++ g) ?_ ?_ ?_ begins balanced
    · rw [before, List.append_assoc]
    · rw [behind, List.append_assoc, List.cons_append]
    · rw [inkOf_append]
      exact asked _ here

theorem Placed.mono {l m : Bool} {c d : Cover} {a b z : List Piece} (h : Placed l c a b z)
    (asked : ∀ k ∈ c.brackets, k ∈ d.brackets) (kept : l = true → m = true) : Placed m d a b z := by
  have placed := h.frame (m := m) (d := d) (f := []) (g := [])
    (fun k hk => by
      rw [inkOf_nil, Bracket.after_zero]
      exact asked k hk)
    fun hl => ⟨kept hl, .nil, .nil⟩
  rwa [List.append_nil] at placed

/-! ## Parts with their covers -/

/-- The part has the ink and the types of its cover, it balances, and the cover asks for each of its
pairs. -/
structure Grouped (loose : Bool) (c : Cover) (ps : List Piece) : Prop where
  ink : inkOf ps = c.ink
  balanced : Balanced (outlineOf ps)
  types : ∀ t ∈ c.types, .verbatim t ∈ ps
  pairs : ∀ a b z, ps = a ++ .groupOpen :: b ++ .groupClose :: z → Balanced (outlineOf b) →
    Placed loose c a b z

namespace Grouped
variable {loose : Bool} {c d : Cover} {ps qs : List Piece}

theorem plain {ws : List Piece} (h : ∀ p ∈ ps, p.isParen = false) (same : inkOf ps = inkOf ws) :
    Grouped loose (.plain ws) ps where
  ink := same
  balanced := balanced_of_isParen h
  types _ ht := absurd ht List.not_mem_nil
  pairs a b z hp _ := absurd (h .groupOpen (by simp [hp])) (by decide)

theorem append (hp : Grouped loose c ps) (hq : Grouped loose d qs) :
    Grouped loose (c ++ d) (ps ++ qs) where
  ink := by
    rw [inkOf_append, hp.ink, hq.ink]
    rfl
  balanced := by
    rw [outlineOf_append]
    exact hp.balanced.append hq.balanced
  types := by
    show ∀ t ∈ c.types ++ d.types, _
    rw [List.forall_mem_append]
    exact ⟨fun t ht => List.mem_append_left _ (hp.types t ht),
      fun t ht => List.mem_append_right _ (hq.types t ht)⟩
  pairs a b z h hb := by
    rcases pair_of_append hp.balanced hb h with ⟨z, rfl, left⟩ | ⟨a, rfl, right⟩
    · refine (hp.pairs a b z left hb).frame (f := []) (fun k hk => ?_)
        fun hl => ⟨hl, .nil, hq.balanced⟩
      rw [inkOf_nil, Bracket.after_zero]
      exact List.mem_append_left _ hk
    · have placed := (hq.pairs a b z right hb).frame (d := c ++ d) (f := ps) (g := [])
        (fun k hk => by
          rw [hp.ink]
          exact List.mem_append_right _ (List.mem_map_of_mem hk))
        fun hl => ⟨hl, hp.balanced, .nil⟩
      rwa [List.append_nil] at placed

theorem space (h : Grouped loose c ps) : Grouped loose c (.space :: ps) := by
  have gap : Grouped loose (.plain []) [.space] := .plain (by decide) (inkOf_space [])
  have whole := gap.append h
  rwa [Cover.plain_nil_append] at whole

/-- With parentheses of its own a part has ink next to its pairs only if it had it before. -/
theorem between (h : Grouped false c ps) : Grouped loose c (parenthesized ps) where
  ink := by simp [parenthesized, h.ink]
  balanced := by simpa [parenthesized] using h.balanced.wrap
  types t ht := by simp [parenthesized, h.types t ht]
  pairs a b z hp hb := by
    obtain ⟨a, z, rfl, rfl, inner⟩ := pair_of_between Piece.noConfusion Piece.noConfusion hp
    exact (h.pairs a b z inner hb).frame (f := [.fixed "("]) (g := [.fixed ")"])
      (fun k hk => by rwa [inkOf_open, inkOf_nil, Bracket.after_zero]) (by simp)

/-- The parentheses of precedence around a part are asked for where the cover wraps it. -/
theorem grouped (h : Grouped false c ps) (exposed : Exposed (outlineOf ps)) :
    Grouped true c.wrap (.groupOpen :: ps ++ [.groupClose]) where
  ink := by
    simp only [List.cons_append, inkOf_groupOpen, inkOf_append, inkOf_groupClose, inkOf_nil, h.ink]
    rfl
  balanced := by simpa using h.balanced.wrap
  types t ht := by simp [h.types t ht]
  pairs a b z hp hb := by
    rcases pair_of_grouped h.balanced hb hp with ⟨rfl, rfl, rfl⟩ | ⟨a, z, rfl, rfl, inner⟩
    · refine .own ?_ exposed (.inr ⟨rfl, .nil, .nil⟩)
      rw [inkOf_nil, h.ink]
      exact List.mem_cons_self ..
    · exact (h.pairs a b z inner hb).frame (f := [.groupOpen]) (g := [.groupClose])
        (fun k hk => by
          rw [inkOf_groupOpen, inkOf_nil, Bracket.after_zero]
          exact List.mem_cons_of_mem _ hk) (by simp)

/-- A cover that asks for one more pair around the whole still asks for the pairs inside. -/
theorem wrap (h : Grouped loose c ps) : Grouped loose c.wrap ps where
  ink := h.ink
  balanced := h.balanced
  types := h.types
  pairs a b z hp hb := (h.pairs a b z hp hb).mono (fun _ hk => List.mem_cons_of_mem _ hk) id

theorem loosen (h : Grouped false c ps) : Grouped loose c ps where
  ink := h.ink
  balanced := h.balanced
  types := h.types
  pairs a b z hp hb := (h.pairs a b z hp hb).mono (fun _ hk => hk) Bool.noConfusion

/-- Where the part shows ink, its outermost pairs have that ink next to them. -/
theorem tighten (h : Grouped true c ps) (exposed : Exposed (outlineOf ps)) :
    Grouped false c ps where
  ink := h.ink
  balanced := h.balanced
  types := h.types
  pairs a b z hp hb := by
    cases h.pairs a b z hp hb with
    | own asked inside next =>
      refine .own asked inside (.inl ?_)
      rcases next with anchored | ⟨-, ha, hz⟩
      · exact anchored
      · rw [hp] at exposed
        exact Exposed.anchored ha hb hz (by simpa using exposed)
    | queried before behind asked begins balanced =>
      exact .queried before behind asked begins balanced

end Grouped

end SqliteSyntax
