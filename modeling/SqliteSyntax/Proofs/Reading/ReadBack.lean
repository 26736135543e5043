import SqliteSyntax.Expr.Nested
import SqliteSyntax.Proofs.Quotes.LeafText
import SqliteSyntax.Proofs.Reading.Readable

/-! # Texts of expressions are read back

Reading the text of an expression with the grammar of the tiers takes all of the text and gives the
expression, up to what text cannot tell apart. -/
namespace SqliteSyntax
set_option autoImplicit false

/-! ## Types are words, and every `CASE` has a branch -/

/-- Every type among the contents is a plain word. -/
def TypesAreWords (leaves : List Leaf) : Prop := ∀ v, .verbatim v ∈ leaves → isWord v = true

/-- Every `CASE` among the expressions has a branch. -/
def CasesBranch (es : List Expr) : Prop := ∀ operand otherwise, .caseWhen operand [] otherwise ∉ es

theorem typesAreWords_append (a b : List Leaf) :
    TypesAreWords (a ++ b) ↔ TypesAreWords a ∧ TypesAreWords b := by
  constructor
  · intro h
    exact ⟨fun v hv => h v (List.mem_append_left b hv), fun v hv => h v (List.mem_append_right a hv)⟩
  · rintro ⟨ha, hb⟩ v hv
    exact (List.mem_append.mp hv).elim (ha v) (hb v)

theorem casesBranch_append (a b : List Expr) :
    CasesBranch (a ++ b) ↔ CasesBranch a ∧ CasesBranch b := by
  constructor
  · intro h
    exact ⟨fun o w hm => h o w (List.mem_append_left b hm),
      fun o w hm => h o w (List.mem_append_right a hm)⟩
  · rintro ⟨ha, hb⟩ o w hm
    exact (List.mem_append.mp hm).elim (ha o w) (hb o w)

theorem CasesBranch.tail {e : Expr} {es : List Expr} (h : CasesBranch (e :: es)) :
    CasesBranch es :=
  fun o w hm => h o w (List.mem_cons_of_mem e hm)

section Readable
variable {P : Select → Prop}

mutual

theorem Expr.readable (hP : ∀ q : Select, TypesAreWords q.leaves → P q) :
    (e : Expr) → TypesAreWords e.leaves → CasesBranch e.nested → e.Readable P
  | .literal _, _, _ => by simp only [Expr.Readable]
  | .column _, _, _ => by simp only [Expr.Readable]
  | .unary op operand, types, cases => by
    rw [Expr.leaves] at types
    rw [Expr.nested] at cases
    rw [Expr.Readable]
    exact operand.readable hP types cases.tail
  | .binary op left right, types, cases => by
    rw [Expr.leaves, typesAreWords_append] at types
    rw [Expr.nested, casesBranch_append] at cases
    rw [Expr.Readable]
    exact ⟨left.readable hP types.1 cases.1.tail, right.readable hP types.2 cases.2⟩
  | .nullTest test operand, types, cases => by
    rw [Expr.leaves] at types
    rw [Expr.nested] at cases
    rw [Expr.Readable]
    exact operand.readable hP types cases.tail
  | .collate operand collation, types, cases => by
    rw [Expr.leaves, typesAreWords_append] at types
    rw [Expr.nested] at cases
    rw [Expr.Readable]
    exact operand.readable hP types.1 cases.tail
  | .pattern op negated subject against escape, types, cases => by
    rw [Expr.leaves, typesAreWords_append, typesAreWords_append] at types
    rw [Expr.nested, casesBranch_append, casesBranch_append] at cases
    rw [Expr.Readable]
    exact ⟨subject.readable hP types.1.1 cases.1.1.tail, against.readable hP types.1.2 cases.1.2,
      optionReadable_of hP escape types.2 cases.2⟩
  | .between negated subject low high, types, cases => by
    rw [Expr.leaves, typesAreWords_append, typesAreWords_append] at types
    rw [Expr.nested, casesBranch_append, casesBranch_append] at cases
    rw [Expr.Readable]
    exact ⟨subject.readable hP types.1.1 cases.1.1.tail, low.readable hP types.1.2 cases.1.2,
      high.readable hP types.2 cases.2⟩
  | .inList negated subject items, types, cases => by
    rw [Expr.leaves, typesAreWords_append] at types
    rw [Expr.nested, casesBranch_append] at cases
    rw [Expr.Readable]
    exact ⟨subject.readable hP types.1 cases.1.tail, listReadable_of hP items types.2 cases.2⟩
  | .inSelect negated subject query, types, cases => by
    rw [Expr.leaves, typesAreWords_append] at types
    rw [Expr.nested, casesBranch_append] at cases
    rw [Expr.Readable]
    exact ⟨subject.readable hP types.1 cases.1.tail, hP query types.2⟩
  | .existsRow negated query, types, _ => by
    rw [Expr.leaves] at types
    rw [Expr.Readable]
    exact hP query types
  | .subquery query, types, _ => by
    rw [Expr.leaves] at types
    rw [Expr.Readable]
    exact hP query types
  | .call function distinct arguments, types, cases => by
    rw [Expr.leaves, typesAreWords_append] at types
    rw [Expr.nested] at cases
    rw [Expr.Readable]
    exact listReadable_of hP arguments types.2 cases.tail
  | .callStar _ _, _, _ => by simp only [Expr.Readable]
  | .caseWhen operand branches otherwise, types, cases => by
    have ne : branches ≠ [] := by
      rintro rfl
      rw [Expr.nested] at cases
      exact cases operand otherwise (List.mem_cons_self ..)
    rw [Expr.leaves, typesAreWords_append, typesAreWords_append] at types
    rw [Expr.nested, casesBranch_append, casesBranch_append] at cases
    rw [Expr.Readable]
    exact ⟨ne, optionReadable_of hP operand types.1.1 cases.1.1.tail,
      branchesReadable_of hP branches types.1.2 cases.1.2, optionReadable_of hP otherwise types.2 cases.2⟩
  | .cast operand typeName, types, cases => by
    rw [Expr.leaves, typesAreWords_append] at types
    rw [Expr.nested] at cases
    rw [Expr.Readable]
    exact ⟨types.2 typeName (List.mem_singleton.mpr rfl), operand.readable hP types.1 cases.tail⟩
  | .row items, types, cases => by
    rw [Expr.leaves] at types
    rw [Expr.nested] at cases
    rw [Expr.Readable]
    exact listReadable_of hP items types cases.tail
  | .raise _, _, _ => by simp only [Expr.Readable]

theorem listReadable_of (hP : ∀ q : Select, TypesAreWords q.leaves → P q) :
    (items : List Expr) → TypesAreWords (listLeaves items) →
    CasesBranch (nestedInList items) → listReadable P items
  | [], _, _ => by simp only [listReadable]
  | e :: rest, types, cases => by
    rw [listLeaves, typesAreWords_append] at types
    rw [nestedInList, casesBranch_append] at cases
    rw [listReadable]
    exact ⟨e.readable hP types.1 cases.1, listReadable_of hP rest types.2 cases.2⟩

theorem optionReadable_of (hP : ∀ q : Select, TypesAreWords q.leaves → P q) :
    (item : Option Expr) → TypesAreWords (optionLeaves item) →
    CasesBranch (nestedInOption item) → optionReadable P item
  | none, _, _ => by simp only [optionReadable]
  | some e, types, cases => by
    rw [optionLeaves] at types
    rw [nestedInOption] at cases
    rw [optionReadable]
    exact e.readable hP types cases

theorem branchesReadable_of (hP : ∀ q : Select, TypesAreWords q.leaves → P q) :
    (branches : List (Expr × Expr)) →
    TypesAreWords (branchLeaves branches) → CasesBranch (nestedInBranches branches) →
    branchesReadable P branches
  | [], _, _ => by simp only [branchesReadable]
  | (condition, result) :: rest, types, cases => by
    rw [branchLeaves, typesAreWords_append, typesAreWords_append] at types
    rw [nestedInBranches, casesBranch_append, casesBranch_append] at cases
    rw [branchesReadable]
    exact ⟨condition.readable hP types.1.1 cases.1.1, result.readable hP types.1.2 cases.1.2,
      branchesReadable_of hP rest types.2 cases.2⟩

end
end Readable

/-! ## Reading whole texts -/

/-- The expression that a text is, with the queries inside it taken as the texts they are. -/
def readExpr (text : String) : Option (Term String) :=
  let ps := lex text.toList
  match readAt (fun inner => some (textOf inner)) (20 * ps.length + 14) .lowest ps with
  | some (x, []) => some x
  | _ => none

theorem verbatimWord_of_leaves {ps : List Piece} (h : TypesAreWords (leavesOf ps)) :
    ∀ p ∈ ps, p.VerbatimWord := by
  intro p hp
  cases p with
  | verbatim v => exact h v (List.mem_filterMap.mpr ⟨_, hp, rfl⟩)
  | _ => trivial

theorem Select.textOf_plain (q : Select) : textOf (plainOf q.pieces) = q.sql := by
  rw [textOf, charsOf_plainOf, Select.sql, textOf]

/-- Reading the text of an expression succeeds, takes all of the text, and gives the expression back,
queries inside it as their texts. -/
theorem Expr.read_sql (e : Expr) (types : TypesAreWords e.leaves) (cases : CasesBranch e.nested) :
    readExpr e.sql = some (e.term Select.sql) := by
  have words : ∀ p ∈ e.bare, p.VerbatimWord :=
    verbatimWord_of_leaves (by rwa [e.leavesOf_bare])
  have text : lex e.sql.toList = plainOf e.bare := e.tidy.lex_textOf words
  have readable : e.Readable fun q =>
      ReadsEnclosed (fun inner => some (textOf inner)) (plainOf q.pieces) q.sql := by
    refine e.readable (fun q hq => ?_) types cases
    refine ReadsEnclosed.of_query (verbatimWord_of_leaves (by rwa [q.leavesOf_pieces])) ?_
    rw [q.textOf_plain]
  have fits : Fits (fun inner => some (textOf inner)) .lowest (plainOf e.bare) (e.term Select.sql) :=
    (e.fits (fun _ h => h) readable).loosen (Nat.zero_le _) e.level_le
  have whole := fits.reads (20 * (plainOf e.bare).length + 14) [] (Nat.le_add_right _ _) (.nil _)
  rw [List.append_nil] at whole
  rw [readExpr, text, whole]

/-- Signs, bounds, a `CASE` and a negated test for rows, one inside the other. -/
theorem Expr.read_sql_of_bounds :
    let q : Select := .ofBody (.values [[.literal (.text ")")]])
    let e : Expr :=
      .between true (.unary .neg (.literal (.decimal ⟨"-5", by decide⟩)))
        (.caseWhen none [(.nullTest .isNull (.named "a"), .cast (.named "b") "INTEGER")] none)
        (.row [.binary .and (.existsRow true q) (.binary .sub (.named "a") (.named "b"))])
    TypesAreWords e.leaves ∧ CasesBranch e.nested ∧
      readExpr e.sql = some
        (.between true (.unary .neg (.unary .neg (.numeral "5")))
          (.caseWhen none
            [(.binary .is (.column ⟨none, "a"⟩) (.literal .null),
              .cast (.column ⟨none, "b"⟩) "INTEGER")] none)
          (.binary .and (.unary .not (.existsRow q.sql))
            (.binary .sub (.column ⟨none, "a"⟩) (.column ⟨none, "b"⟩)))) := by
  intro q e
  have types : TypesAreWords e.leaves := by
    have contents : e.leaves = [.name "a", .name "b", .verbatim "INTEGER", .text ")", .name "a",
        .name "b"] := rfl
    intro v hv
    have only : v = "INTEGER" := by simpa [contents] using hv
    rw [only]
    decide
  have cases : CasesBranch e.nested := by
    intro operand otherwise h
    simp [e, q, Expr.nested, nestedInOption, nestedInBranches, nestedInList, Expr.named,
      Select.ofBody, Select.nested, nestedInWith, SelectBody.nested, nestedInRows, nestedInCompounds,
      nestedInTerms] at h
  exact ⟨types, cases, read_sql e types cases⟩

end SqliteSyntax
