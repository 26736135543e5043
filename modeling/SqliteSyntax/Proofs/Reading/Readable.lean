import SqliteSyntax.Proofs.Pieces.Listed
import SqliteSyntax.Proofs.Reading.Primaries

/-! # Every expression is read back

The text of an expression of a tier is read at that tier as the term of the expression
(`Expr.fits`), by induction on the expression: `Expr.Fitting` passes from the parts of an expression to
the expression, form by form. The parentheses of precedence stand where the text alone would be read at
too loose a tier (`Expr.Fitting.operand`). -/
namespace SqliteSyntax
set_option autoImplicit false

/-! ## What must hold of an expression -/

mutual

/-- In the expression, outside of its queries, every type is a word and every `CASE` has a branch; and
its queries have a property. -/
def Expr.Readable (P : Select → Prop) : Expr → Prop
  | .literal _ | .column _ | .callStar .. | .raise _ => True
  | .unary _ operand => operand.Readable P
  | .binary _ left right => left.Readable P ∧ right.Readable P
  | .nullTest _ operand => operand.Readable P
  | .collate operand _ => operand.Readable P
  | .pattern _ _ subject against escape =>
    subject.Readable P ∧ against.Readable P ∧ optionReadable P escape
  | .between _ subject low high => subject.Readable P ∧ low.Readable P ∧ high.Readable P
  | .inList _ subject items => subject.Readable P ∧ listReadable P items
  | .inSelect _ subject query => subject.Readable P ∧ P query
  | .existsRow _ query => P query
  | .subquery query => P query
  | .call _ _ arguments => listReadable P arguments
  | .caseWhen operand branches otherwise =>
    branches ≠ [] ∧ optionReadable P operand ∧ branchesReadable P branches ∧
      optionReadable P otherwise
  | .cast operand typeName => isWord typeName = true ∧ operand.Readable P
  | .row items => listReadable P items

def listReadable (P : Select → Prop) : List Expr → Prop
  | [] => True
  | e :: rest => e.Readable P ∧ listReadable P rest

def optionReadable (P : Select → Prop) : Option Expr → Prop
  | none => True
  | some e => e.Readable P

def branchesReadable (P : Select → Prop) : List (Expr × Expr) → Prop
  | [] => True
  | (condition, result) :: rest =>
    condition.Readable P ∧ result.Readable P ∧ branchesReadable P rest

end

/-! ## Lists of terms -/

section Lists
variable {Q : Type} (f : Select → Q)

theorem listTerms_eq (items : List Expr) : listTerms f items = items.map (Expr.term f) := by
  induction items with
  | nil => rw [listTerms, List.map_nil]
  | cons e rest ih => rw [listTerms, List.map_cons, ih]

theorem optionTerm_eq (item : Option Expr) : optionTerm f item = item.map (Expr.term f) := by
  cases item with
  | none => rw [optionTerm, Option.map_none]
  | some e => rw [optionTerm, Option.map_some]

theorem branchTerms_eq (branches : List (Expr × Expr)) :
    branchTerms f branches = branches.map fun b => (b.1.term f, b.2.term f) := by
  induction branches with
  | nil => rw [branchTerms, List.map_nil]
  | cons b rest ih => rw [branchTerms, List.map_cons, ih]

end Lists

/-! ## Tiers of expressions -/

/-- The tier at which the text of an expression is read: a primary is read with the signs. -/
def Expr.level (e : Expr) : Precedence :=
  if e.precedence = .primary then .unary else e.precedence

theorem Expr.level_le (e : Expr) : e.level.rank ≤ Precedence.rank .unary := by
  unfold Expr.level
  cases e.precedence <;> decide

theorem Expr.le_level {e : Expr} {tier : Precedence} (h : tier.rank ≤ e.precedence.rank)
    (top : tier.rank ≤ Precedence.rank .unary) : tier.rank ≤ e.level.rank := by
  unfold Expr.level
  split
  · exact top
  · exact h

theorem Opens.plainOf {tier : Precedence} {ps : List Piece} (h : Opens tier ps) :
    Opens tier (plainOf ps) := by
  obtain ⟨p, rest, rfl, opens, ne⟩ := h
  cases p with
  | numeral digits =>
    rw [plainOf_cons, Piece.plain, plainNumeral]
    split
    · exact .cons (by decide) fun _ => by decide
    · exact .cons (by decide) fun _ => by decide
    · exact .cons opens fun _ => by simp
  | verbatim content => exact Bool.noConfusion opens
  | groupOpen => exact .cons (by decide) fun _ => by decide
  | groupClose => exact Bool.noConfusion opens
  | _ => exact .cons opens ne

theorem Expr.opens_level (e : Expr) : Opens e.level (plainOf e.bare) := by
  refine e.opening.plainOf.weaken ?_
  show e.level.rank ≤ e.precedence.rank
  unfold Expr.level
  split
  · next h =>
    rw [h]
    decide
  · exact Nat.le_refl _

/-- The tiers of the operators are those of the grammar. -/
theorem tier_binary (op : BinaryOp) : (Follow.binary op).tier = op.precedence := by
  cases op <;> rfl

theorem rightTier_eq (op : BinaryOp) : op.rightTier = (Follow.binary op).tier.above := by
  cases op <;> rfl

variable {Q : Type} {readQuery : List Piece → Option Q} {f : Select → Q}

/-! ## Parentheses -/

theorem Fits.parenthesized {level : Precedence} {ps : List Piece} {x : Term Q}
    (h : Fits readQuery level ps x) (top : level.rank ≤ Precedence.rank .unary) :
    Fits readQuery .unary (parenthesized ps) x := by
  have single : ∀ u ∈ [()], Fits readQuery .lowest ((fun _ => ps) u) ((fun _ => x) u) :=
    fun _ _ => h.loosen (Nat.zero_le _) top
  have items := ReadsItems.of_fits (fun _ => ps) (fun _ => x) [()] single
  exact (ReadsPrimary.row items).fits (.cons (by decide) fun _ => by decide) fun k => rfl

variable (readQuery f) in
/-- The text of the expression is read at its tier as its term. -/
def Expr.Fitting (e : Expr) : Prop := Fits readQuery e.level (plainOf e.bare) (e.term f)

/-- Inside of something else the expression may be of any tier. -/
theorem Expr.Fitting.lowest {e : Expr} (h : e.Fitting readQuery f) :
    Fits readQuery .lowest (plainOf e.bare) (e.term f) :=
  h.loosen (Nat.zero_le _) e.level_le

/-- With the parentheses that precedence asks for, an expression is read at the tier of its
position. -/
theorem Expr.Fitting.operand {e : Expr} (h : e.Fitting readQuery f) (tier : Precedence)
    (top : tier.rank ≤ Precedence.rank .unary) :
    Fits readQuery tier (plainOf (e.grouped tier e.bare)) (e.term f) := by
  unfold Expr.grouped
  rw [plainOf_groupedIf]
  split
  · exact (h.parenthesized e.level_le).loosen top (Nat.le_refl _)
  · next hlt =>
    have hle : ¬ e.precedence < tier := by simpa using hlt
    exact h.loosen (e.le_level (Nat.le_of_not_lt hle) top) e.level_le

/-! ## Prefixes and literals -/

theorem Fits.sign {op : UnaryOp} {mark : String}
    (h : (op, mark) ∈ [(UnaryOp.neg, "-"), (.plus, "+"), (.bitNot, "~")]) {ps : List Piece}
    {x : Term Q} (hps : Fits readQuery .unary ps x) :
    Fits readQuery .unary (.fixed mark :: ps) (.unary op x) := by
  have read : ∀ k, prefixOp (.fixed mark :: ps ++ k) = some (op, ps ++ k) := by
    intro k
    simp only [List.mem_cons, Prod.mk.injEq, List.not_mem_nil, or_false] at h
    rcases h with ⟨rfl, rfl⟩ | ⟨rfl, rfl⟩ | ⟨rfl, rfl⟩ <;> rfl
  have opens : Opens .unary (.fixed mark :: ps) := by
    simp only [List.mem_cons, Prod.mk.injEq, List.not_mem_nil, or_false] at h
    rcases h with ⟨rfl, rfl⟩ | ⟨rfl, rfl⟩ | ⟨rfl, rfl⟩
    all_goals exact .cons (by decide) fun _ => by decide
  refine ReadsAs.fits opens rfl fun n k hn hk => ?_
  rw [List.length_cons] at hn
  obtain ⟨m, rfl⟩ : ∃ m, n = m + 1 := ⟨n - 1, by simp only [Precedence.rank] at hn; omega⟩
  rw [readAt, read]
  show (readAt readQuery m .unary (ps ++ k)).bind _ = _
  rw [hps.reads m k (by omega) hk]
  rfl

theorem Fits.negation {ps : List Piece} {x : Term Q} (hps : Fits readQuery .not ps x) :
    Fits readQuery .not (.fixed "NOT" :: .space :: ps) (.unary .not x) := by
  have opens : Opens .not (.fixed "NOT" :: .space :: ps) :=
    .cons (by decide) fun h => absurd h (Nat.lt_irrefl _)
  refine ReadsAs.fits opens rfl fun n k hn hk => ?_
  simp only [List.length_cons] at hn
  obtain ⟨m, rfl⟩ : ∃ m, n = m + 1 := ⟨n - 1, by simp only [Precedence.rank] at hn; omega⟩
  rw [readAt, List.cons_append, List.cons_append, expect_fixed, if_pos rfl]
  show (readAt readQuery m .not (.space :: (ps ++ k))).bind _ = _
  rw [readAt_space, hps.reads m k (by omega) hk]
  rfl

theorem Term.ofNumeral_of_isUnsigned {digits : String}
    (h : Numeral.isUnsigned digits.toList = true) :
    (Term.ofNumeral digits : Term Q) = .numeral digits := by
  obtain ⟨c, rest, chars, minus, plus, -⟩ := head_of_isUnsigned h
  unfold Term.ofNumeral
  split
  · next heq =>
    rw [chars] at heq
    cases heq
    exact absurd rfl minus
  · next heq =>
    rw [chars] at heq
    cases heq
    exact absurd rfl plus
  · rfl

theorem Fits.numeral {digits : String} (h : Numeral.isWritten digits.toList = true) :
    Fits readQuery .unary (plainNumeral digits) (.ofNumeral digits) := by
  have bare (t : String) (ht : Numeral.isWritten t.toList = true) :
      Fits readQuery .unary [.numeral t] (.numeral t) :=
    (ReadsPrimary.numeral t).fits (.cons ht fun _ => by simp) fun k => rfl
  have whole (cs : List Char) (hcs : Numeral.isUnsigned cs = true) :
      Numeral.isWritten (String.ofList cs).toList = true := by
    rw [String.toList_ofList]
    exact Numeral.isWritten_of_isUnsigned hcs
  rcases Numeral.sign_of_isWritten h with unsigned | ⟨sign, rest, chars, hsign, unsigned⟩
  · rw [plainNumeral_of_isUnsigned unsigned, Term.ofNumeral_of_isUnsigned unsigned]
    exact bare digits h
  · rw [plainNumeral, Term.ofNumeral, chars]
    have minus : (UnaryOp.neg, "-") ∈ [(UnaryOp.neg, "-"), (.plus, "+"), (.bitNot, "~")] := by decide
    have plus : (UnaryOp.plus, "+") ∈ [(UnaryOp.neg, "-"), (.plus, "+"), (.bitNot, "~")] := by decide
    rcases hsign with rfl | rfl
    · exact .sign minus (bare _ (whole rest unsigned))
    · exact .sign plus (bare _ (whole rest unsigned))

theorem Literal.fits (value : Literal) :
    Fits readQuery .unary (plainOf value.pieces) (.ofLiteral value) := by
  have word {word : String} {value : Literal} (h : ReadsPrimary readQuery [.fixed word] (.literal value))
      (opens : (Piece.fixed word).opensOperand = true ∧ Piece.fixed word ≠ .fixed "NOT")
      (leads : ∀ k, prefixOp (.fixed word :: k) = none) :
      Fits readQuery .unary [.fixed word] (.literal value) :=
    h.fits (.cons opens.1 fun _ => opens.2) leads
  cases value with
  | null => exact word (.constant (by decide)) (by decide) fun k => rfl
  | boolean b =>
    cases b with
    | false => exact word (.constant (by decide)) (by decide) fun k => rfl
    | true => exact word (.constant (by decide)) (by decide) fun k => rfl
  | integer n =>
    rw [Literal.pieces, plainOf_cons, plainOf_nil, List.append_nil]
    refine .numeral ?_
    rw [String.toList_ofList]
    exact isWritten_integerText n.toInt
  | real r =>
    rw [Literal.pieces, plainOf_cons, plainOf_nil, List.append_nil]
    exact .numeral r.isWritten_text
  | decimal d =>
    rw [Literal.pieces, plainOf_cons, plainOf_nil, List.append_nil]
    exact .numeral d.written
  | text t => exact (ReadsPrimary.text t).fits (.cons rfl fun _ => by simp) fun k => rfl
  | blob bytes => exact (ReadsPrimary.blob bytes).fits (.cons rfl fun _ => by simp) fun k => rfl
  | currentTime => exact word (.constant (by decide)) (by decide) fun k => rfl
  | currentDate => exact word (.constant (by decide)) (by decide) fun k => rfl
  | currentTimestamp => exact word (.constant (by decide)) (by decide) fun k => rfl

theorem Expr.level_literal (value : Literal) : (Expr.literal value).level = .unary := by
  cases h : value.isNegativeNumber <;> simp [Expr.level, Expr.precedence, h]

/-! ## Operators -/

theorem UnaryOp.mark_of_ne_not {op : UnaryOp} (h : op ≠ .not) :
    ∃ mark, (op, mark) ∈ [(UnaryOp.neg, "-"), (.plus, "+"), (.bitNot, "~")] ∧
      Phrase.pieces op = [.fixed mark] := by
  cases op with
  | not => exact absurd rfl h
  | neg => exact ⟨"-", by decide, rfl⟩
  | plus => exact ⟨"+", by decide, rfl⟩
  | bitNot => exact ⟨"~", by decide, rfl⟩

/-- The parentheses that keep two signs apart are read as a group. -/
theorem Fits.unary {op : UnaryOp} {ps : List Piece} {x : Term Q}
    (h : Fits readQuery op.precedence ps x) :
    Fits readQuery op.precedence (op.pieces ps) (.unary op x) := by
  by_cases hop : op = .not
  · subst hop
    exact .negation h
  have unary : op.precedence = .unary := by
    cases op <;> first | rfl | exact absurd rfl hop
  obtain ⟨mark, hmark, pieces⟩ := UnaryOp.mark_of_ne_not hop
  rw [unary] at h ⊢
  have text : op.pieces ps = .fixed mark ::
      (if op.isSign && leadsWithSign ps then SqliteSyntax.parenthesized ps else ps) := by
    unfold UnaryOp.pieces
    split
    · exact absurd rfl hop
    · rw [pieces]
      rfl
  rw [text]
  split
  · exact .sign hmark (h.parenthesized (Nat.le_refl _))
  · exact .sign hmark h

/-! ## Lists of expressions -/

/-- Expressions that are read one by one are read as a list. -/
theorem items_read {items : List Expr}
    (h : ∀ e ∈ items, e.Fitting readQuery f) :
    ReadsItems readQuery (plainOf (commaSeparated (listPieces items))) (listTerms f items) := by
  rw [plainOf_commaSeparated, listPieces_eq, List.map_map, listTerms_eq]
  exact ReadsItems.of_fits (fun e => plainOf e.bare) (Expr.term f) items
    fun e he => (h e he).lowest

theorem plainOf_option (item : Option Expr) :
    (optionPieces item).map plainOf = item.map fun e => plainOf e.bare := by
  rw [optionPieces_eq, Option.map_map]
  rfl

theorem plainOf_branches (branches : List (Expr × Expr)) :
    plainOf (branchPieces branches) =
      branches.flatMap fun b => branchOf (plainOf b.1.bare) (plainOf b.2.bare) := by
  rw [branchPieces_eq]
  induction branches with
  | nil => rfl
  | cons b rest ih =>
    rw [List.flatMap_cons, plainOf_append, ih, List.flatMap_cons, branchText, plainOf_append]
    rfl

theorem plainOf_callPieces (function : FunctionName) (distinct : Bool) (arguments : List Piece) :
    plainOf (function.callPieces distinct arguments) =
      function.callPieces distinct (plainOf arguments) := by
  unfold FunctionName.callPieces
  rw [plainOf_append, plainOf_functionName, plainOf_parenthesized, plainOf_append, plainOf_onlyIf]
  rfl

theorem prefixOp_callPieces (function : FunctionName) (distinct : Bool) (arguments k : List Piece) :
    prefixOp (function.callPieces distinct arguments ++ k) = none := by
  cases function with
  | builtin function => cases function <;> rfl
  | defined name => rfl

/-! ## Expressions of fitting parts

The term of each form is by definition the one its tier reads, so that only the text is rewritten;
`Term.ofExists` and the lists inside `CASE` are opened by name. -/

namespace Expr.Fitting
variable {operand left right subject against low high : Expr} {items : List Expr} {query : Select}

theorem literal (value : Literal) : (Expr.literal value).Fitting readQuery f := by
  rw [Fitting, Expr.level_literal, Expr.bare]
  exact value.fits

theorem column (reference : ColumnRef) : (Expr.column reference).Fitting readQuery f := by
  have opens := (Expr.column reference).opens_level
  unfold Fitting
  rw [Expr.bare, plainOf_columnRef] at opens ⊢
  refine (ReadsPrimary.column reference).fits opens fun k => ?_
  obtain ⟨qualifier, column⟩ := reference
  cases qualifier with
  | none => rfl
  | some qualifier =>
    cases qualifier with
    | table name =>
      obtain ⟨schema, table⟩ := name
      cases schema <;> rfl
    | new => rfl
    | old => rfl

theorem unary (op : UnaryOp) (h : operand.Fitting readQuery f) :
    (Expr.unary op operand).Fitting readQuery f := by
  have level : (Expr.unary op operand).level = op.precedence := by cases op <;> rfl
  have top : op.precedence.rank ≤ Precedence.rank .unary := by cases op <;> decide
  rw [Fitting, level, Expr.bare, plainOf_unary]
  exact (h.operand _ top).unary

theorem binary (op : BinaryOp) (hl : left.Fitting readQuery f) (hr : right.Fitting readQuery f) :
    (Expr.binary op left right).Fitting readQuery f := by
  have opens := (Expr.binary op left right).opens_level
  have level : (Expr.binary op left right).level = (Follow.binary op).tier := by cases op <;> rfl
  have chain : (Follow.binary op).tier.isChain = true := by cases op <;> rfl
  have top : (Follow.binary op).tier.rank ≤ Precedence.rank .unary := by cases op <;> decide
  have topRight : (Follow.binary op).tier.above.rank ≤ Precedence.rank .unary := by
    cases op <;> decide
  have behind := hr.operand _ topRight
  -- a right operand that began with `NOT` would turn `IS` into `IS NOT`
  have leads : op = .is → ∀ k, expect "NOT" (plainOf (right.grouped
      (Follow.binary op).tier.above right.bare) ++ k) = none := by
    rintro rfl
    exact behind.opens.expect_not (by decide)
  have whole := Spine.binary ((hl.operand _ top).spine chain) leads behind.reads
  unfold Fitting
  rw [level, Expr.bare, ← tier_binary, rightTier_eq] at opens ⊢
  simp only [plainOf_append, plainOf_space, plainOf_choice] at opens ⊢
  exact whole.fits opens

/-- Two of the tests are read as comparisons with `NULL`. -/
theorem nullTest (test : NullTest) (h : operand.Fitting readQuery f) :
    (Expr.nullTest test operand).Fitting readQuery f := by
  have opens := (Expr.nullTest test operand).opens_level
  have spine := (h.operand .equality (by decide)).spine rfl
  have right : Fits readQuery .comparison [.fixed "NULL"] (.literal .null : Term Q) :=
    (Literal.fits .null).loosen (by decide) (by decide)
  unfold Fitting
  rw [Expr.bare, plainOf_append, plainOf_space, plainOf_choice] at opens ⊢
  cases test with
  | isNull =>
    have leads := fun k => right.opens.expect_not (by decide) k
    have whole : Spine readQuery .equality _ _ := Spine.binary spine (fun _ : BinaryOp.is = .is => leads)
      right.reads
    rw [List.append_assoc] at whole
    exact whole.fits opens
  | isNotNull =>
    have leads : BinaryOp.isNot = .is → ∀ k, expect "NOT" ([.fixed "NULL"] ++ k) = none :=
      fun h => BinaryOp.noConfusion h
    have whole : Spine readQuery .equality _ _ := Spine.binary spine leads right.reads
    rw [List.append_assoc] at whole
    exact whole.fits opens
  | isnull => exact (Spine.nullTest (by decide) spine).fits opens
  | notnull => exact (Spine.nullTest (by decide) spine).fits opens
  | notNull => exact (Spine.nullTest (by decide) spine).fits opens

theorem collate (h : operand.Fitting readQuery f) (collation : String) :
    (Expr.collate operand collation).Fitting readQuery f := by
  have opens := (Expr.collate operand collation).opens_level
  have spine := (h.operand .collate (by decide)).spine rfl
  unfold Fitting
  rw [Expr.bare, plainOf_append] at opens ⊢
  exact (Spine.collate spine collation).fits opens

theorem escape {escape : Option Expr} (h : ∀ e ∈ escape, e.Fitting readQuery f) :
    Option.Rel (ReadsAs readQuery .comparison) ((escapePieces escape).map plainOf)
      (optionTerm f escape) := by
  cases escape with
  | none => exact .none
  | some e => exact .some ((h e rfl).operand .comparison (by decide)).reads

theorem pattern (op : PatternOp) (negated : Bool) (hs : subject.Fitting readQuery f)
    (ha : against.Fitting readQuery f) {escape : Option Expr}
    (he : ∀ e ∈ escape, e.Fitting readQuery f) :
    (Expr.pattern op negated subject against escape).Fitting readQuery f := by
  have opens := (Expr.pattern op negated subject against escape).opens_level
  have spine := (hs.operand .equality (by decide)).spine rfl
  have behind := (ha.operand .comparison (by decide)).reads
  unfold Fitting
  rw [Expr.bare] at opens ⊢
  simp only [plainOf_append, plainOf_space, plainOf_negatable, plainOf_clause] at opens ⊢
  exact (Spine.pattern spine behind (Fitting.escape he)).fits opens

theorem between (negated : Bool) (hs : subject.Fitting readQuery f) (hl : low.Fitting readQuery f)
    (hh : high.Fitting readQuery f) :
    (Expr.between negated subject low high).Fitting readQuery f := by
  have opens := (Expr.between negated subject low high).opens_level
  have spine := (hs.operand .equality (by decide)).spine rfl
  have lower := (hl.operand .comparison (by decide)).reads
  have upper := (hh.operand .comparison (by decide)).reads
  unfold Fitting
  rw [Expr.bare] at opens ⊢
  simp only [plainOf_append, plainOf_space, plainOf_fixed, plainOf_negatable] at opens ⊢
  exact (Spine.between spine lower upper).fits opens

theorem inList (negated : Bool) (hs : subject.Fitting readQuery f)
    (hi : ∀ e ∈ items, e.Fitting readQuery f) :
    (Expr.inList negated subject items).Fitting readQuery f := by
  have opens := (Expr.inList negated subject items).opens_level
  have spine := (hs.operand .equality (by decide)).spine rfl
  unfold Fitting
  rw [Expr.bare] at opens ⊢
  simp only [plainOf_append, plainOf_space, plainOf_negatable, plainOf_parenthesized] at opens ⊢
  exact (Spine.inList spine (items_read hi)).fits opens

theorem inSelect (negated : Bool) (hs : subject.Fitting readQuery f)
    (hq : ReadsEnclosed readQuery (plainOf query.pieces) (f query)) :
    (Expr.inSelect negated subject query).Fitting readQuery f := by
  have opens := (Expr.inSelect negated subject query).opens_level
  have spine := (hs.operand .equality (by decide)).spine rfl
  unfold Fitting
  rw [Expr.bare] at opens ⊢
  simp only [plainOf_append, plainOf_space, plainOf_negatable, plainOf_parenthesized] at opens ⊢
  exact (Spine.inSelect spine hq).fits opens

theorem existsRow (negated : Bool)
    (hq : ReadsEnclosed readQuery (plainOf query.pieces) (f query)) :
    (Expr.existsRow negated query).Fitting readQuery f := by
  have row : Fits readQuery .unary
      (.fixed "EXISTS" :: .space :: parenthesized (plainOf query.pieces)) (.existsRow (f query)) :=
    (ReadsPrimary.existsRow hq).fits (.cons (by decide) fun _ => by decide) fun k => rfl
  rw [Fitting, Expr.bare, Expr.term, Term.ofExists, plainOf_append, plainOf_negatable, plainOf_space,
    plainOf_parenthesized]
  cases negated with
  | false => exact row
  | true => exact (row.loosen (by decide) (Nat.le_refl _)).negation

theorem subquery (hq : ReadsEnclosed readQuery (plainOf query.pieces) (f query)) :
    (Expr.subquery query).Fitting readQuery f := by
  rw [Fitting, Expr.bare, plainOf_parenthesized]
  exact (ReadsPrimary.subquery hq).fits (.cons (by decide) fun _ => by decide) fun k => rfl

theorem call (function : FunctionName) (distinct : Bool)
    (hi : ∀ e ∈ items, e.Fitting readQuery f) :
    (Expr.call function distinct items).Fitting readQuery f := by
  have opens := (Expr.call function distinct items).opens_level
  have inside := items_read hi
  unfold Fitting
  rw [Expr.bare, plainOf_callPieces] at opens ⊢
  exact (ReadsPrimary.called fun n k hn => readCall_items function distinct inside hn k).fits opens
    (prefixOp_callPieces function distinct _)

theorem callStar (function : FunctionName) (distinct : Bool) :
    (Expr.callStar function distinct).Fitting readQuery f := by
  have opens := (Expr.callStar function distinct).opens_level
  unfold Fitting
  rw [Expr.bare, plainOf_callPieces] at opens ⊢
  exact (ReadsPrimary.called fun n k hn => readCall_star function distinct (by omega) k).fits opens
    (prefixOp_callPieces function distinct _)

theorem caseWhen {operand otherwise : Option Expr} {branches : List (Expr × Expr)}
    (ne : branches ≠ []) (ho : ∀ e ∈ operand, e.Fitting readQuery f)
    (hb : ∀ b ∈ branches, b.1.Fitting readQuery f ∧ b.2.Fitting readQuery f)
    (he : ∀ e ∈ otherwise, e.Fitting readQuery f) :
    (Expr.caseWhen operand branches otherwise).Fitting readQuery f := by
  have whole := ReadsPrimary.caseWhen (fun e => plainOf e.bare) (Expr.term f) ne
    (fun e hmem => (ho e hmem).lowest) (fun b hmem => ⟨(hb b hmem).1.lowest, (hb b hmem).2.lowest⟩)
    fun e hmem => (he e hmem).lowest
  rw [Fitting, Expr.bare, Expr.term]
  simp only [List.cons_append, plainOf_append, plainOf_fixed, plainOf_space, plainOf_spaced,
    plainOf_clause, plainOf_option, plainOf_branches, plainOf_nil, optionTerm_eq, branchTerms_eq]
  exact whole.fits (.cons (by decide) fun _ => by decide) fun k => rfl

theorem cast (h : operand.Fitting readQuery f) (typeName : String) :
    (Expr.cast operand typeName).Fitting readQuery f := by
  rw [Fitting, Expr.bare, plainOf_fixed, plainOf_parenthesized, plainOf_append]
  exact (ReadsPrimary.cast h.lowest typeName).fits (.cons (by decide) fun _ => by decide) fun k => rfl

theorem row (hi : ∀ e ∈ items, e.Fitting readQuery f) : (Expr.row items).Fitting readQuery f := by
  rw [Fitting, Expr.bare, plainOf_parenthesized]
  exact (ReadsPrimary.row (items_read hi)).fits (.cons (by decide) fun _ => by decide) fun k => rfl

theorem raise (action : RaiseAction) : (Expr.raise action).Fitting readQuery f := by
  rw [Fitting, Expr.bare, plainOf_fixed, plainOf_parenthesized, plainOf_raiseAction]
  exact (ReadsPrimary.raise action).fits (.cons (by decide) fun _ => by decide) fun k => rfl

end Expr.Fitting

/-! ## Every expression -/

section Every
set_option linter.unusedSectionVars false
variable {P : Select → Prop}
  (hP : ∀ q : Select, P q → ReadsEnclosed readQuery (plainOf q.pieces) (f q))
include hP

mutual

/-- The text of an expression is read at its tier as its term. -/
theorem Expr.fits : (e : Expr) → e.Readable P → e.Fitting readQuery f
  | .literal value, _ => .literal value
  | .column reference, _ => .column reference
  | .unary op operand, h => .unary op (operand.fits h)
  | .binary op left right, h => .binary op (left.fits h.1) (right.fits h.2)
  | .nullTest test operand, h => .nullTest test (operand.fits h)
  | .collate operand collation, h => .collate (operand.fits h) collation
  | .pattern op negated subject against escape, h =>
    .pattern op negated (subject.fits h.1) (against.fits h.2.1) (option_fits escape h.2.2)
  | .between negated subject low high, h =>
    .between negated (subject.fits h.1) (low.fits h.2.1) (high.fits h.2.2)
  | .inList negated subject items, h => .inList negated (subject.fits h.1) (list_fits items h.2)
  | .inSelect negated subject query, h => .inSelect negated (subject.fits h.1) (hP query h.2)
  | .existsRow negated query, h => .existsRow negated (hP query h)
  | .subquery query, h => .subquery (hP query h)
  | .call function distinct items, h => .call function distinct (list_fits items h)
  | .callStar function distinct, _ => .callStar function distinct
  | .caseWhen operand branches otherwise, h =>
    .caseWhen h.1 (option_fits operand h.2.1) (branches_fits branches h.2.2.1)
      (option_fits otherwise h.2.2.2)
  | .cast operand typeName, h => .cast (operand.fits h.2) typeName
  | .row items, h => .row (list_fits items h)
  | .raise action, _ => .raise action

theorem list_fits : (items : List Expr) → listReadable P items →
    ∀ e ∈ items, e.Fitting readQuery f
  | [], _ => List.forall_mem_nil _
  | e :: rest, h => List.forall_mem_cons.mpr ⟨e.fits h.1, list_fits rest h.2⟩

theorem option_fits : (item : Option Expr) → optionReadable P item →
    ∀ e ∈ item, e.Fitting readQuery f
  | none, _ => fun _ he => absurd he (by simp)
  | some e, h => by
    intro e' he
    cases he
    exact e.fits h

theorem branches_fits : (branches : List (Expr × Expr)) → branchesReadable P branches →
    ∀ b ∈ branches, b.1.Fitting readQuery f ∧ b.2.Fitting readQuery f
  | [], _ => List.forall_mem_nil _
  | (condition, result) :: rest, h =>
    List.forall_mem_cons.mpr
      ⟨⟨condition.fits h.1, result.fits h.2.1⟩, branches_fits rest h.2.2⟩

end

end Every

end SqliteSyntax
