import SqliteSyntax.Proofs.Minimal.Pairs
import SqliteSyntax.Proofs.Reading.Reader

/-! # What a term asks of its text

A text that is read as a term has, at known places, the parentheses that the tiers of the grammar
ask for: around each operand that binds looser than its position. `Term.cover` lists these places by
the ink before them and between them, and the queries with the ink before them. -/
namespace SqliteSyntax
set_option autoImplicit false

/-! ## Brackets -/

/-- What stands between two parentheses: so much ink, or a query with this text. -/
inductive Content where
  | ink (amount : Nat)
  | query (text : String)

/-- Parentheses after so much ink. -/
structure Bracket where
  start : Nat
  content : Content

def Content.Describes : Content → List Piece → Prop
  | .ink amount, ps => inkOf ps = amount
  | .query text, ps => textOf ps = text

namespace Bracket

/-- The same parentheses with more ink in front. -/
def after (n : Nat) (k : Bracket) : Bracket := ⟨n + k.start, k.content⟩

/-- The pieces have these parentheses. -/
def Stands (k : Bracket) (ps : List Piece) : Prop :=
  ∃ a b c, ps = a ++ .fixed "(" :: b ++ .fixed ")" :: c ∧ Balanced (outlineOf b) ∧
    inkOf a = k.start ∧ k.content.Describes b

theorem Stands.left {k : Bracket} {ps : List Piece} (h : k.Stands ps) (qs : List Piece) :
    k.Stands (ps ++ qs) := by
  obtain ⟨a, b, c, rfl, hb, start, content⟩ := h
  exact ⟨a, b, c ++ qs, by simp, hb, start, content⟩

theorem Stands.right {k : Bracket} {qs : List Piece} (h : k.Stands qs) (ps : List Piece) :
    (k.after (inkOf ps)).Stands (ps ++ qs) := by
  obtain ⟨a, b, c, rfl, hb, start, content⟩ := h
  exact ⟨ps ++ a, b, c, by simp, hb, by rw [inkOf_append, start]; rfl, content⟩

theorem Stands.between {k : Bracket} {ps : List Piece} (h : k.Stands ps) :
    k.Stands (parenthesized ps) := by
  obtain ⟨a, b, c, rfl, hb, start, content⟩ := h
  exact ⟨.fixed "(" :: a, b, c ++ [.fixed ")"], by simp [parenthesized], hb,
    by rw [inkOf_open, start], content⟩

end Bracket

/-! ## Covers -/

/-- What a part of a text must have: so much ink, these parentheses, these types of casts. -/
structure Cover where
  ink : Nat
  brackets : List Bracket
  types : List String

namespace Cover

/-- Pieces without parentheses. -/
def plain (ps : List Piece) : Cover := ⟨inkOf ps, [], []⟩

def type (name : String) : Cover := ⟨inkOf [.fixed name], [], [name]⟩

def query (text : String) : Cover := ⟨inkIn text.toList, [⟨0, .query text⟩], []⟩

def append (a b : Cover) : Cover :=
  ⟨a.ink + b.ink, a.brackets ++ b.brackets.map (Bracket.after a.ink), a.types ++ b.types⟩

instance : Append Cover := ⟨append⟩

@[simp] theorem plain_nil_append (c : Cover) : plain [] ++ c = c := by
  obtain ⟨ink, brackets, types⟩ := c
  show (⟨0 + ink, brackets.map (Bracket.after 0), types⟩ : Cover) = _
  have same : Bracket.after 0 = id := by
    funext k
    simp [Bracket.after]
  rw [Nat.zero_add, same, List.map_id]

@[simp] theorem append_plain_nil (c : Cover) : c ++ plain [] = c := by
  obtain ⟨ink, brackets, types⟩ := c
  show (⟨ink + 0, brackets ++ [], types ++ []⟩ : Cover) = _
  rw [Nat.add_zero, List.append_nil, List.append_nil]

theorem plain_append (a b : List Piece) : plain a ++ plain b = plain (a ++ b) := by
  show (⟨inkOf a + inkOf b, [], []⟩ : Cover) = ⟨inkOf (a ++ b), [], []⟩
  rw [inkOf_append]

theorem plain_congr {a b : List Piece} (h : inkOf a = inkOf b) : plain a = plain b := by
  rw [plain, plain, h]

/-- The whole stands between parentheses. -/
def wrap (c : Cover) : Cover := ⟨c.ink, ⟨0, .ink c.ink⟩ :: c.brackets, c.types⟩

/-- What binds looser than its position asks for stands between parentheses. -/
def within (c : Cover) (own tier : Precedence) : Cover := if own < tier then c.wrap else c

end Cover

/-! ## Covers of terms -/

/-- The tier of the outermost form of a term. -/
def Term.tier {Q : Type} : Term Q → Precedence
  | .unary op _ => op.precedence
  | .binary op _ _ => (Follow.binary op).tier
  | .nullTest .. | .pattern .. | .between .. | .inList .. | .inSelect .. => .equality
  | .collate .. => .collate
  | _ => .primary

mutual

/-- What the text of a term must have. -/
def Term.cover : Term String → Cover
  | .literal value => .plain value.pieces
  | .numeral digits => .plain [.numeral digits]
  | .column reference => .plain reference.pieces
  | .unary op operand =>
    .plain (Phrase.pieces op) ++ operand.cover.within operand.tier op.precedence
  | .binary op left right =>
    left.cover.within left.tier (Follow.binary op).tier ++ .plain (Phrase.pieces op) ++
      right.cover.within right.tier (Follow.binary op).tier.above
  | .nullTest test operand =>
    operand.cover.within operand.tier .equality ++ .plain (Phrase.pieces test)
  | .collate operand collation =>
    operand.cover.within operand.tier .collate ++ .plain [.fixed "COLLATE"] ++
      .plain [.name collation]
  | .pattern op negated subject against escape =>
    subject.cover.within subject.tier .equality ++ .plain (negatable negated (Phrase.words op)) ++
      against.cover.within against.tier .comparison ++
      optionCover [.fixed "ESCAPE"] .comparison escape
  | .between negated subject low high =>
    subject.cover.within subject.tier .equality ++ .plain (negatable negated ["BETWEEN"]) ++
      low.cover.within low.tier .comparison ++ .plain [.fixed "AND"] ++
      high.cover.within high.tier .comparison
  | .inList negated subject items =>
    subject.cover.within subject.tier .equality ++ .plain (negatable negated ["IN"]) ++
      listCover items
  | .inSelect negated subject query =>
    subject.cover.within subject.tier .equality ++ .plain (negatable negated ["IN"]) ++ .query query
  | .existsRow query => .plain [.fixed "EXISTS"] ++ .query query
  | .subquery query => .query query
  | .call function distinct arguments =>
    .plain function.pieces ++ (.plain (onlyIf distinct [.fixed "DISTINCT"]) ++ listCover arguments)
  | .callStar function distinct =>
    .plain function.pieces ++
      (.plain (onlyIf distinct [.fixed "DISTINCT"]) ++ .plain [.fixed "*"])
  | .caseWhen operand branches otherwise =>
    .plain [.fixed "CASE"] ++ optionCover [] .lowest operand ++ branchesCover branches ++
      optionCover [.fixed "ELSE"] .lowest otherwise ++ .plain [.fixed "END"]
  | .cast operand typeName =>
    .plain [.fixed "CAST"] ++ (operand.cover ++ .plain [.fixed "AS"] ++ .type typeName)
  | .row items => listCover items
  | .raise action => .plain [.fixed "RAISE"] ++ .plain action.pieces

/-- Items with commas between them. -/
def listCover : List (Term String) → Cover
  | [] => .plain []
  | [item] => item.cover
  | item :: next :: rest => item.cover ++ .plain [.fixed ","] ++ listCover (next :: rest)

/-- Words and an item at a tier, if there is one. -/
def optionCover (words : List Piece) (tier : Precedence) : Option (Term String) → Cover
  | none => .plain []
  | some item => .plain words ++ item.cover.within item.tier tier

def branchesCover : List (Term String × Term String) → Cover
  | [] => .plain []
  | (condition, result) :: rest =>
    .plain [.fixed "WHEN"] ++ condition.cover ++ .plain [.fixed "THEN"] ++ result.cover ++
      branchesCover rest

end

/-- What the text of a term must have in a position that asks for a tier. -/
def Term.coverAt (tier : Precedence) (x : Term String) : Cover := x.cover.within x.tier tier

theorem Term.coverAt_tier {tier : Precedence} {x : Term String} (h : x.tier = tier) :
    x.coverAt tier = x.cover := by
  rw [← h]
  exact if_neg (Nat.lt_irrefl _)

theorem Term.coverAt_lowest (x : Term String) : x.coverAt .lowest = x.cover := by
  rw [Term.coverAt, Cover.within]
  exact if_neg (Nat.not_lt_zero x.tier.rank)

/-! ## Texts with a cover -/

/-- The pieces are such as a lexer finds: no parenthesis is known to be one of precedence. -/
def Lexed (ps : List Piece) : Prop := ∀ p ∈ ps, p ≠ .groupOpen ∧ p ≠ .groupClose

theorem lexed_append {a b : List Piece} : Lexed (a ++ b) ↔ Lexed a ∧ Lexed b :=
  List.forall_mem_append

namespace Cover

/-- The pieces balance and have what the cover asks for. -/
structure Charts (c : Cover) (ps : List Piece) : Prop where
  ink : inkOf ps = c.ink
  balanced : Balanced (outlineOf ps)
  brackets : ∀ k ∈ c.brackets, k.Stands ps

/-- What a lexer finds has what the cover asks for, if the types of casts are words: a reader takes
any mark for a type, also a parenthesis. -/
def Covers (c : Cover) (ps : List Piece) : Prop :=
  (∀ t ∈ c.types, isWord t = true) → Lexed ps → c.Charts ps

theorem Covers.append {a b : Cover} {ps qs : List Piece} (ha : a.Covers ps) (hb : b.Covers qs) :
    (a ++ b).Covers (ps ++ qs) := by
  intro types lexed
  have types : ∀ t ∈ a.types ++ b.types, isWord t = true := types
  rw [List.forall_mem_append] at types
  obtain ⟨left, right⟩ := lexed_append.mp lexed
  have ha := ha types.1 left
  have hb := hb types.2 right
  refine ⟨?_, ?_, ?_⟩
  · rw [inkOf_append, ha.ink, hb.ink]
    rfl
  · rw [outlineOf_append]
    exact ha.balanced.append hb.balanced
  · show ∀ k ∈ a.brackets ++ b.brackets.map (Bracket.after a.ink), k.Stands (ps ++ qs)
    rw [List.forall_mem_append]
    refine ⟨fun k hk => (ha.brackets k hk).left qs, List.forall_mem_map.mpr fun k hk => ?_⟩
    rw [← ha.ink]
    exact (hb.brackets k hk).right ps

theorem Covers.plain {ps qs : List Piece} (h : ∀ p ∈ qs, p.isParen = false)
    (same : inkOf qs = inkOf ps) : (Cover.plain ps).Covers qs :=
  fun _ _ => ⟨same, balanced_of_isParen h, fun _ hk => absurd hk List.not_mem_nil⟩

theorem Covers.between {c : Cover} {ps : List Piece} (h : c.Covers ps) :
    c.Covers (parenthesized ps) ∧ c.wrap.Covers (parenthesized ps) := by
  have whole (types : ∀ t ∈ c.types, isWord t = true) (lexed : Lexed (parenthesized ps)) :
      c.Charts ps ∧ c.Charts (parenthesized ps) := by
    have inner := h types fun p hp => lexed p (by simp [parenthesized, hp])
    refine ⟨inner, ⟨?_, ?_, fun k hk => (inner.brackets k hk).between⟩⟩
    · simp [parenthesized, inner.ink]
    · simpa [parenthesized] using inner.balanced.wrap
  refine ⟨fun types lexed => (whole types lexed).2, fun types lexed => ?_⟩
  obtain ⟨inner, outer⟩ := whole types lexed
  refine ⟨outer.ink, outer.balanced, List.forall_mem_cons.mpr ⟨?_, outer.brackets⟩⟩
  exact ⟨[], ps, [], by simp [parenthesized], inner.balanced, rfl, inner.ink⟩

theorem Covers.query {inner : List Piece} (h : Lexed inner → Balanced (outlineOf inner)) :
    (Cover.query (textOf inner)).Covers (parenthesized inner) := by
  intro _ lexed
  have balanced := h fun p hp => lexed p (by simp [parenthesized, hp])
  refine ⟨?_, ?_, List.forall_mem_singleton.mpr ?_⟩
  · rw [Cover.query, textOf, String.toList_ofList]
    simp only [parenthesized, List.cons_append, inkOf_open, inkOf_append, inkOf_close, inkOf_nil]
    rfl
  · simpa [parenthesized] using balanced.wrap
  · exact ⟨[], inner, [], by simp [parenthesized], balanced, rfl, rfl⟩

theorem Covers.type (name : String) : (Cover.type name).Covers [.fixed name] := by
  intro types _
  have word : isWord name = true := types name (List.mem_singleton.mpr rfl)
  have piece : (Piece.fixed name).isParen = false := by
    rw [Piece.isParen, Bool.or_eq_false_iff, beq_eq_false_iff_ne, beq_eq_false_iff_ne]
    constructor
    all_goals
      rintro rfl
      exact absurd word (by decide)
  exact ⟨rfl, balanced_of_isParen (List.forall_mem_singleton.mpr piece),
    fun _ hk => absurd hk List.not_mem_nil⟩

theorem Covers.of_wrap {c : Cover} {ps : List Piece} (h : c.wrap.Covers ps) : c.Covers ps := by
  intro types lexed
  have whole := h types lexed
  exact ⟨whole.ink, whole.balanced, fun k hk => whole.brackets k (List.mem_cons_of_mem _ hk)⟩

end Cover

end SqliteSyntax
