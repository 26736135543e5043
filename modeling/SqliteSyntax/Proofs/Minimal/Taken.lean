import SqliteSyntax.Proofs.Minimal.Cover
import SqliteSyntax.Proofs.Reading.Expressions

/-! # What a reader takes

`Takes c ps rest`: the pieces that a reader took from `ps`, up to `rest`, have what the cover asks
for. `Extends c c' ps rest`: they complete pieces with the first cover to pieces with the second.
Words, columns, forms and queries are settled here, all that reads no operand. -/
namespace SqliteSyntax
set_option autoImplicit false

/-! ## Covers of what is taken -/

namespace Cover

theorem Covers.spaces {n : Nat} : (Cover.plain []).Covers (List.replicate n .space) := by
  refine .plain (fun p hp => ?_) ?_
  · rw [List.eq_of_mem_replicate hp]
    rfl
  · induction n with
    | zero => rfl
    | succ n ih => rw [List.replicate_succ, inkOf_space, ih]

/-- What is asked for in a position is asked for in every looser one. -/
theorem Covers.loosen {c : Cover} {own tier level : Precedence} {ps : List Piece}
    (h : (c.within own level).Covers ps) (le : tier ≤ level) : (c.within own tier).Covers ps := by
  unfold Cover.within at h ⊢
  by_cases below : own < tier
  · rw [if_pos (show own < level from Nat.lt_of_lt_of_le below le)] at h
    rwa [if_pos below]
  · rw [if_neg below]
    split at h
    · exact h.of_wrap
    · exact h

end Cover

/-! ## Taking pieces -/

/-- What is taken up to `rest` has the cover. -/
def Takes (c : Cover) (ps rest : List Piece) : Prop := ∃ d, ps = d ++ rest ∧ c.Covers d

/-- What is taken up to `rest` completes one cover to another. -/
def Extends (c c' : Cover) (ps rest : List Piece) : Prop :=
  ∃ d, ps = d ++ rest ∧ ∀ front, c.Covers front → c'.Covers (front ++ d)

namespace Takes
variable {a b c : Cover} {ps mid rest : List Piece}

theorem append (ha : Takes a ps mid) (hb : Takes b mid rest) : Takes (a ++ b) ps rest := by
  obtain ⟨d, rfl, hd⟩ := ha
  obtain ⟨d', rfl, hd'⟩ := hb
  exact ⟨d ++ d', (List.append_assoc ..).symm, hd.append hd'⟩

theorem nothing (ps : List Piece) : Takes (.plain []) ps ps :=
  ⟨[], rfl, .spaces (n := 0)⟩

theorem piece {p : Piece} (h : p.isParen = false) (rest : List Piece) :
    Takes (.plain [p]) (p :: rest) rest :=
  ⟨[p], rfl, .plain (List.forall_mem_singleton.mpr h) rfl⟩

theorem pieces {ps : List Piece} (h : ∀ p ∈ ps, p.isParen = false) (rest : List Piece) :
    Takes (.plain ps) (ps ++ rest) rest :=
  ⟨ps, rfl, .plain h rfl⟩

theorem extend (h : Takes b ps rest) : Extends c (c ++ b) ps rest := by
  obtain ⟨d, rfl, hd⟩ := h
  exact ⟨d, rfl, fun front hf => hf.append hd⟩

theorem of_extends (hc : Takes a ps mid) (h : Extends a b mid rest) : Takes b ps rest := by
  obtain ⟨d, rfl, hd⟩ := hc
  obtain ⟨d', rfl, hd'⟩ := h
  exact ⟨d ++ d', (List.append_assoc ..).symm, hd' d hd⟩

end Takes

theorem Extends.refl (c : Cover) (ps : List Piece) : Extends c c ps ps :=
  ⟨[], rfl, fun front hf => by rwa [List.append_nil]⟩

theorem Extends.trans {a b c : Cover} {ps mid rest : List Piece} (h : Extends a b ps mid)
    (h' : Extends b c mid rest) : Extends a c ps rest := by
  obtain ⟨d, rfl, hd⟩ := h
  obtain ⟨d', rfl, hd'⟩ := h'
  refine ⟨d ++ d', (List.append_assoc ..).symm, fun front hf => ?_⟩
  rw [← List.append_assoc]
  exact hd' _ (hd front hf)

/-! ## Spaces and words -/

theorem eq_spaces_append_skip (ps : List Piece) :
    ∃ n, ps = List.replicate n .space ++ skip ps := by
  induction ps with
  | nil => exact ⟨0, rfl⟩
  | cons p rest ih =>
    by_cases hp : p = .space
    · obtain ⟨n, hn⟩ := ih
      subst hp
      exact ⟨n + 1, by rw [skip_space, List.replicate_succ, List.cons_append, ← hn]⟩
    · refine ⟨0, ?_⟩
      cases p <;> first | rfl | exact absurd rfl hp

theorem expect_eq_some {word : String} {ps rest : List Piece} (h : expect word ps = some rest) :
    skip ps = .fixed word :: rest := by
  unfold expect at h
  split at h
  · next hs =>
    split at h
    · next ht =>
      rw [hs, ht, Option.some.inj h]
    · exact absurd h (by simp)
  · exact absurd h (by simp)

namespace Takes
variable {c : Cover} {ps mid rest : List Piece}

theorem skipped (ps : List Piece) : Takes (.plain []) ps (skip ps) := by
  obtain ⟨n, hn⟩ := eq_spaces_append_skip ps
  exact ⟨_, hn, .spaces⟩

theorem of_skip (h : Takes c (skip ps) rest) : Takes c ps rest := by
  have whole := (skipped ps).append h
  rwa [Cover.plain_nil_append] at whole

theorem to_skip (h : Takes c ps mid) : Takes c ps (skip mid) := by
  have whole := h.append (skipped mid)
  rwa [Cover.append_plain_nil] at whole

theorem word {word : String} (h : expect word ps = some rest)
    (hw : (Piece.fixed word).isParen = false) : Takes (.plain [.fixed word]) ps rest := by
  refine of_skip ?_
  rw [expect_eq_some h]
  exact piece hw rest

/-- What is taken between parentheses may be asked for with them and without them. -/
theorem between (h : Takes c mid ps) (hc : expect ")" ps = some rest) :
    Takes c (.fixed "(" :: mid) rest ∧ Takes c.wrap (.fixed "(" :: mid) rest := by
  have whole := h.to_skip
  rw [expect_eq_some hc] at whole
  obtain ⟨d, rfl, hd⟩ := whole
  have text : .fixed "(" :: (d ++ .fixed ")" :: rest) = parenthesized d ++ rest := by
    simp [parenthesized]
  exact ⟨⟨_, text, hd.between.1⟩, ⟨_, text, hd.between.2⟩⟩

theorem opened (hp : expect "(" ps = some mid) (h : Takes c (.fixed "(" :: mid) rest) :
    Takes c ps rest := by
  refine of_skip ?_
  rwa [expect_eq_some hp]

end Takes

/-! ## Forms -/

/-- The words of a form. -/
def Follow.text : Follow → List Piece
  | .binary op => Phrase.pieces op
  | .nullTest test => Phrase.pieces test
  | .pattern op negated => negatable negated (Phrase.words op)
  | .between negated => negatable negated ["BETWEEN"]
  | .membership negated => negatable negated ["IN"]
  | .escape => [.fixed "ESCAPE"]
  | .collate => [.fixed "COLLATE"]

theorem Follow.text_of_word {word : String} {form : Follow} (h : Follow.ofWord? word = some form) :
    (Piece.fixed word).isParen = false ∧ inkOf [.fixed word] = inkOf form.text := by
  unfold Follow.ofWord? at h
  split at h
  case h_7 =>
    split at h
    · next op hop =>
      cases h
      have words := patternSymbols_lookup.mp hop
      cases op <;> cases words <;> exact ⟨rfl, rfl⟩
    · obtain ⟨op, hop, rfl⟩ := Option.map_eq_some_iff.mp h
      have words := binarySymbols_lookup.mp hop
      cases op <;> cases words <;> exact ⟨rfl, rfl⟩
  all_goals
    cases h
    exact ⟨rfl, rfl⟩

/-- A space between two pieces is no ink. -/
theorem inkOf_spaced_pair (p q : Piece) : inkOf [p, q] = inkOf [p, .space, q] := by
  rw [inkOf_cons, inkOf_cons p [.space, q], inkOf_space]

theorem Follow.text_of_negatedWord {word : String} {form : Follow}
    (h : Follow.ofNegatedWord? word = some form) :
    (Piece.fixed word).isParen = false ∧
      inkOf [.fixed "NOT", .fixed word] = inkOf form.text := by
  unfold Follow.ofNegatedWord? at h
  split at h
  case h_4 =>
    obtain ⟨op, hop, rfl⟩ := Option.map_eq_some_iff.mp h
    have words := patternSymbols_lookup.mp hop
    cases op <;> cases words <;> exact ⟨rfl, inkOf_spaced_pair ..⟩
  all_goals
    cases h
    exact ⟨rfl, inkOf_spaced_pair ..⟩

/-- The words of a form are taken for what they are, with any spaces between them. -/
theorem follow_takes {ps rest : List Piece} {form : Follow} (h : follow ps = some (form, rest)) :
    Takes (.plain form.text) ps rest := by
  have pair {word word' : String} {mid : List Piece} (hw : (Piece.fixed word).isParen = false)
      (hw' : (Piece.fixed word').isParen = false) (hs : skip mid = .fixed word' :: rest)
      (same : inkOf [.fixed word, .fixed word'] = inkOf form.text) :
      Takes (.plain form.text) (.fixed word :: mid) rest := by
    have second : Takes (.plain [.fixed word']) mid rest := .of_skip (hs ▸ .piece hw' rest)
    have whole := (Takes.piece hw mid).append second
    rwa [Cover.plain_append, List.singleton_append, Cover.plain_congr same] at whole
  refine .of_skip ?_
  unfold follow at h
  split at h
  · next hs =>
    rw [hs]
    split at h
    · next hs' =>
      cases h
      exact pair rfl rfl hs' rfl
    · cases h
      exact .piece rfl _
  · next hs =>
    rw [hs]
    split at h
    · next hs' =>
      obtain ⟨found, hf, same⟩ := Option.map_eq_some_iff.mp h
      cases same
      obtain ⟨hw, ink⟩ := Follow.text_of_negatedWord hf
      exact pair rfl hw hs' ink
    · exact absurd h (by simp)
  · next hs =>
    rw [hs]
    obtain ⟨found, hf, same⟩ := Option.map_eq_some_iff.mp h
    cases same
    obtain ⟨hw, ink⟩ := Follow.text_of_word hf
    have whole := Takes.piece hw rest
    rwa [Cover.plain_congr ink] at whole
  · exact absurd h (by simp)

/-! ## Parts without operands -/

theorem prefixOp_takes {ps rest : List Piece} {op : UnaryOp} (h : prefixOp ps = some (op, rest)) :
    op.precedence = .unary ∧ Takes (.plain (Phrase.pieces op)) ps rest := by
  suffices op.precedence = .unary ∧ Takes (.plain (Phrase.pieces op)) (skip ps) rest from
    ⟨this.1, .of_skip this.2⟩
  unfold prefixOp at h
  split at h
  case h_4 => exact absurd h (by simp)
  all_goals
    next hs =>
    cases h
    rw [hs]
    exact ⟨rfl, .piece rfl _⟩

theorem constant_takes {word : String} {value : Literal} (h : constant? word = some value)
    (rest : List Piece) : Takes (.plain value.pieces) (.fixed word :: rest) rest := by
  unfold constant? at h
  split at h
  case h_7 => exact absurd h (by simp)
  all_goals
    cases h
    exact .piece rfl rest

theorem builtin_takes {word : String} {function : Builtin}
    (h : builtinNames.lookup word = some function) (rest : List Piece) :
    Takes (.plain (FunctionName.builtin function).pieces) (.fixed word :: rest) rest := by
  obtain rfl := builtinNames_lookup.mp h
  refine .piece ?_ rest
  cases function <;> rfl

theorem callOpening_some {ps rest : List Piece} (h : callOpening ps = some rest) :
    ps = .fixed "(" :: rest := by
  unfold callOpening at h
  split at h
  · rw [Option.some.inj h]
  · exact absurd h (by simp)

theorem columnAfter_pieces (first : String) (ps : List Piece) :
    .name first :: ps = (columnAfter first ps).1.pieces ++ (columnAfter first ps).2 := by
  unfold columnAfter
  split <;> rfl

/-- An action with a message: its word, a comma and the text. -/
theorem Takes.message {word text : String} {ps next after mid : List Piece}
    (hw : (Piece.fixed word).isParen = false) (hs : skip ps = .fixed word :: next)
    (hc : expect "," next = some after) (ht : skip after = .text text :: mid) :
    Takes (.plain [.fixed word, .fixed ",", .space, .text text]) ps mid := by
  have words := (Takes.piece hw next).append (.word hc rfl)
  have message : Takes (.plain [.text text]) after mid := .of_skip (ht ▸ .piece rfl mid)
  have whole := words.append message
  have same : inkOf ([.fixed word, .fixed ","] ++ [.text text]) =
      inkOf ([.fixed word, .fixed ","] ++ .space :: [.text text]) := by
    rw [inkOf_append, inkOf_append, inkOf_space]
  rw [Cover.plain_append, List.singleton_append, Cover.plain_append, Cover.plain_congr same] at whole
  exact .of_skip (hs ▸ whole)

theorem readRaise_takes {ps rest : List Piece} {action : RaiseAction}
    (h : readRaise ps = some (action, rest)) :
    ∃ mid, Takes (.plain action.pieces) ps mid ∧ expect ")" mid = some rest := by
  unfold readRaise at h
  split at h
  · next hs =>
    obtain ⟨mid, hm, same⟩ := Option.map_eq_some_iff.mp h
    cases same
    exact ⟨_, .of_skip (hs ▸ .piece rfl _), hm⟩
  · next hs =>
    split at h
    · next hc =>
      split at h
      · next ht =>
        split at h
        case h_4 => exact absurd h (by simp)
        all_goals
          obtain ⟨mid, hm, same⟩ := Option.map_eq_some_iff.mp h
          cases same
          exact ⟨_, .message rfl hs hc ht, hm⟩
      · exact absurd h (by simp)
    · exact absurd h (by simp)
  · exact absurd h (by simp)

/-! ## Queries -/

/-- From so many open parentheses the marks come down to none, and not further. -/
structure Returns (depth : Int) (marks : List Mark) : Prop where
  opened : ∀ front, front <+: marks → 0 ≤ depth + net front
  closed : depth + net marks = 0

theorem Returns.cons {depth : Int} {m : Mark} {marks : List Mark} (hd : 0 ≤ depth)
    (h : Returns (depth + m.step) marks) : Returns depth (m :: marks) where
  opened front hf := by
    rcases List.prefix_cons_iff.mp hf with rfl | ⟨inner, rfl, hi⟩
    · simpa [net] using hd
    · rw [net, ← Int.add_assoc]
      exact h.opened inner hi
  closed := by rw [net, ← Int.add_assoc, h.closed]

theorem Returns.level {depth : Int} {front marks : List Mark} (hf : ∀ m ∈ front, m.step = 0)
    (hd : 0 ≤ depth) (h : Returns depth marks) : Returns depth (front ++ marks) := by
  induction front with
  | nil => exact h
  | cons m rest ih =>
    obtain ⟨hm, hrest⟩ := List.forall_mem_cons.mp hf
    exact .cons hd (by rw [hm, Int.add_zero]; exact ih hrest)

/-- What stands before the parenthesis that closes here comes down to none. -/
theorem closing_some {ps inner rest : List Piece} {depth : Nat}
    (h : closing depth ps = some (inner, rest)) :
    ps = inner ++ .fixed ")" :: rest ∧ (Lexed inner → Returns depth (outlineOf inner)) := by
  induction ps generalizing depth inner with
  | nil => exact absurd h (by simp [closing])
  | cons p ps ih =>
    rw [closing.eq_def] at h
    dsimp only at h
    split at h
    · next hp =>
      subst hp
      split at h
      · cases h
        exact ⟨rfl, fun _ => ⟨by simp [net], rfl⟩⟩
      · next depth =>
        obtain ⟨⟨inner, rest⟩, hs, same⟩ := Option.map_eq_some_iff.mp h
        cases same
        obtain ⟨rfl, returns⟩ := ih hs
        refine ⟨rfl, fun lexed => .cons (Int.natCast_nonneg _) ?_⟩
        have back : ((depth + 1 : Nat) : Int) + Mark.step (.plain ')') = depth := by
          have : Mark.step (.plain ')') = -1 := by decide
          omega
        rw [back]
        exact returns (List.forall_mem_cons.mp lexed).2
    · next hp =>
      obtain ⟨⟨inner, rest⟩, hs, same⟩ := Option.map_eq_some_iff.mp h
      cases same
      obtain ⟨rfl, returns⟩ := ih hs
      refine ⟨rfl, fun lexed => ?_⟩
      obtain ⟨hl, inside⟩ := List.forall_mem_cons.mp lexed
      by_cases ho : p = .fixed "("
      · rw [if_pos ho] at returns
        subst ho
        exact .cons (Int.natCast_nonneg _) (returns inside)
      · rw [if_neg ho] at returns
        refine (returns inside).level (Piece.step_outline ?_) (Int.natCast_nonneg _)
        cases p with
        | fixed t => simpa [Piece.isParen] using And.intro ho hp
        | groupOpen => exact absurd rfl hl.1
        | groupClose => exact absurd rfl hl.2
        | _ => rfl

/-- A reader of queries that takes each as the text it is. -/
abbrev queryText (inner : List Piece) : Option String := some (textOf inner)

theorem readEnclosed_takes {ps rest : List Piece} {text : String}
    (h : readEnclosed queryText ps = some (text, rest)) :
    Takes (.query text) (.fixed "(" :: ps) rest := by
  obtain ⟨⟨inner, rest'⟩, hs, same⟩ := Option.bind_eq_some_iff.mp h
  cases same
  obtain ⟨rfl, returns⟩ := closing_some hs
  refine ⟨parenthesized inner, by simp [parenthesized], .query fun lexed => ?_⟩
  have balanced := returns lexed
  refine ⟨fun front hf => ?_, ?_⟩
  · simpa using balanced.opened front hf
  · simpa using balanced.closed

end SqliteSyntax
