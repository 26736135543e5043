import SqliteSyntax.Proofs.Pieces.StatementText
import SqliteSyntax.Proofs.Reading.Throughout
import SqliteSyntax.Proofs.Rules.Built

/-! # Texts of statements are unambiguous

A text is that of at most one statement made by calls, up to what text cannot tell apart. The arguments of
a module are free text and no reader knows their grammar: the rest of the statement is read first, and the
arguments are what is left. They are told apart by the commas between them. -/
namespace SqliteSyntax
set_option autoImplicit false

/-! ## Arguments of modules -/

/-- The arguments after the name of the module, in parentheses, if there are any. -/
def argumentPieces (args : List String) : List Piece :=
  if args.isEmpty then [] else parenthesized (commaSeparated (args.map fun a => [.verbatim a]))

def CommaFree (args : List String) : Prop := ∀ a ∈ args, ',' ∉ a.toList

/-- With one more comma and space at the end, each argument has its own. -/
theorem charsOf_arguments (a : String) (rest : List String) :
    charsOf (commaSeparated ((a :: rest).map fun a => [.verbatim a])) ++ [',', ' '] =
      (a :: rest).flatMap fun a => a.toList ++ [',', ' '] := by
  induction rest generalizing a with
  | nil => simp [commaSeparated, separated, Piece.chars]
  | cons b rest ih =>
    rw [List.flatMap_cons, ← ih b]
    simp [commaSeparated, separated, Piece.chars]

theorem eq_of_ended {args args' : List String} (h : CommaFree args) (h' : CommaFree args')
    (same : (args.flatMap fun a => a.toList ++ [',', ' ']) =
      args'.flatMap fun a => a.toList ++ [',', ' ']) : args = args' := by
  induction args generalizing args' with
  | nil =>
    cases args' with
    | nil => rfl
    | cons b rest' => simp at same
  | cons a rest ih =>
    cases args' with
    | nil => simp at same
    | cons b rest' =>
      have ha := h a (List.mem_cons_self ..)
      have hb := h' b (List.mem_cons_self ..)
      simp only [List.flatMap_cons, List.append_assoc, List.cons_append, List.nil_append] at same
      have first : a.toList = b.toList := by
        have whole := congrArg (List.takeWhile (· ≠ ',')) same
        rwa [takeWhile_append_of_not_mem ha, takeWhile_append_of_not_mem hb] at whole
      obtain rfl := String.toList_inj.mp first
      have others := (List.cons.inj (List.cons.inj (List.append_cancel_left same)).2).2
      rw [ih (fun c hc => h c (List.mem_cons_of_mem _ hc))
        (fun c hc => h' c (List.mem_cons_of_mem _ hc)) others]

/-- Arguments without commas are told apart by their text. -/
theorem eq_of_argumentPieces {args args' : List String} (h : CommaFree args) (h' : CommaFree args')
    (same : charsOf (argumentPieces args) = charsOf (argumentPieces args')) : args = args' := by
  cases args with
  | nil =>
    cases args' with
    | nil => rfl
    | cons b rest' => exact absurd same (by simp [argumentPieces, parenthesized, Piece.chars])
  | cons a rest =>
    cases args' with
    | nil => exact absurd same (by simp [argumentPieces, parenthesized, Piece.chars])
    | cons b rest' =>
      have inner : charsOf (commaSeparated ((a :: rest).map fun a => [.verbatim a])) =
          charsOf (commaSeparated ((b :: rest').map fun a => [.verbatim a])) := by
        simpa [argumentPieces, parenthesized, Piece.chars] using same
      refine eq_of_ended h h' ?_
      rw [← charsOf_arguments, ← charsOf_arguments, inner]

namespace Statement

/-- The statement with these arguments in place of those of the virtual table that it makes, if any. -/
def withArguments (args : List String) : Statement → Statement
  | .createVirtualTable t => .createVirtualTable { t with arguments := args }
  | .explain queryPlan s => .explain queryPlan (s.withArguments args)
  | s => s

/-- The statement up to the name of the module, if it ends in one. -/
def head (s : Statement) : Statement := s.withArguments []

theorem pieces_eq_head (s : Statement) :
    s.pieces = s.head.pieces ++ argumentPieces s.moduleArguments := by
  cases s with
  | createVirtualTable t =>
    simp only [head, withArguments, pieces, moduleArguments]
    simp [CreateVirtualTable.pieces, argumentPieces]
  | explain queryPlan s =>
    have inner := pieces_eq_head s
    simp only [head, withArguments, pieces, moduleArguments] at inner ⊢
    rw [inner]
    simp
  | _ => exact (List.append_nil _).symm

theorem canonical_eq_head (s : Statement) :
    s.canonical = s.head.canonical.withArguments s.moduleArguments := by
  cases s with
  | createVirtualTable t => rfl
  | explain queryPlan s =>
    have inner := canonical_eq_head s
    simp only [head, withArguments, canonical, moduleArguments] at inner ⊢
    rw [inner]
  | _ => rfl

theorem moduleArguments_head (s : Statement) : s.head.moduleArguments = [] := by
  cases s with
  | createVirtualTable t => rfl
  | explain queryPlan s => exact moduleArguments_head s
  | _ => rfl

theorem moduleArguments_of_endsInModule {s : Statement} (h : s.head.endsInModule = false) :
    s.moduleArguments = [] := by
  cases s with
  | createVirtualTable t => exact Bool.noConfusion h
  | explain queryPlan s => exact moduleArguments_of_endsInModule (s := s) h
  | _ => rfl

theorem isExplain_head (s : Statement) : s.head.isExplain = s.isExplain := by
  cases s <;> rfl

theorem soundThroughout_head {s : Statement} (h : (Node.statement s).SoundThroughout) :
    (Node.statement s.head).SoundThroughout := by
  cases s with
  | createVirtualTable t => exact Node.soundThroughout_iff.mpr ⟨trivial, fun m hm => by cases hm⟩
  | explain queryPlan s =>
    obtain ⟨plain, parts⟩ := Node.soundThroughout_iff.mp h
    have inner := soundThroughout_head (parts (.statement s) (List.mem_cons_self ..))
    exact Node.soundThroughout_iff.mpr
      ⟨s.isExplain_head.trans plain, List.forall_mem_singleton.mpr inner⟩
  | _ => exact h

theorem apart_arguments (args : List String) : Apart (charsOf (argumentPieces args)) := by
  unfold argumentPieces
  split
  · exact Ends.nil.apart
  · exact .cons (by decide) _

theorem toList_sql (s : Statement) :
    s.sql.toList = charsOf s.head.pieces ++ charsOf (argumentPieces s.moduleArguments) := by
  rw [sql, textOf, String.toList_ofList, pieces_eq_head, charsOf_append]

/-- A lexer finds the pieces up to the name of the module, whatever the arguments are. -/
theorem lexes_head {s : Statement} (words : ∀ p ∈ s.head.pieces, p.VerbatimWord) :
    Lexes s.head.pieces (charsOf (argumentPieces s.moduleArguments)) := by
  have spaced {front rest : List Piece} {k : List Char} (tidy : Tidy front)
      (words : ∀ p ∈ front, p.VerbatimWord) (h : Lexes rest k) : Lexes (front ++ .space :: rest) k :=
    (tidy.lexes words (.cons (by decide) _)).append (.cons (.of_first rfl rfl rfl) h)
  cases s with
  | createVirtualTable t =>
    have front : Tidy (createPieces false ["VIRTUAL", "TABLE"] t.ifNotExists ++
        (t.name.pieces ++ .space :: [.fixed "USING"])) :=
      (Leading.create false t.ifNotExists (by decide)).append (.spaced t.name.tidy (.word (by decide)))
    have text : (createVirtualTable t).head.pieces =
        (createPieces false ["VIRTUAL", "TABLE"] t.ifNotExists ++
          (t.name.pieces ++ .space :: [.fixed "USING"])) ++ .space :: [.name t.moduleName] := by
      simp [head, withArguments, pieces, CreateVirtualTable.pieces]
    rw [text] at words ⊢
    exact spaced front (fun p hp => words p (List.mem_append_left _ hp))
      (.name t.moduleName (apart_arguments _))
  | explain queryPlan s =>
    have phrased : Tidy (phrase (if queryPlan then ["EXPLAIN", "QUERY", "PLAN"] else ["EXPLAIN"])) :=
      .phrase (by cases queryPlan <;> decide)
    simp only [head, withArguments, pieces] at words ⊢
    exact spaced phrased (fun p hp => words p (List.mem_append_left _ hp))
      (lexes_head fun p hp => words p (List.mem_append_right _ (List.mem_cons_of_mem _ hp)))
  | _ => exact (tidy _).lexes words .nil

theorem lex_sql {s : Statement} (types : TypesPlain s.head.leaves) : lex s.sql.toList =
    plainOf s.head.pieces ++ lex (charsOf (argumentPieces s.moduleArguments)) := by
  have words : ∀ p ∈ s.head.pieces, p.VerbatimWord :=
    verbatimWord_of_leaves (by rw [leavesOf_pieces]; exact types.words)
  rw [toList_sql]
  exact lexes_head words

/-- A sound statement with plain types and no arguments can be read at every depth beyond its size. -/
theorem readable_of_plain {s : Statement} (plain : (Node.statement s).Plain)
    (bare : s.moduleArguments = []) {depth : Nat} (size : (Node.statement s).size < depth) :
    s.Readable (Select.IsRead (Select.read depth)) := by
  cases s with
  | explain queryPlan t =>
    have part : Node.statement t ∈ (Node.statement (.explain queryPlan t)).parts :=
      List.mem_cons_self ..
    have inner := (plain.part part).readable depth
      (Nat.lt_trans (Node.size_lt_of_mem_parts _ _ part) size)
    exact inner (Node.soundThroughout_iff.mp plain.sound).1 bare
  | _ => exact plain.readable depth size rfl bare

/-- The text of a sound statement with plain types is read as its canonical form up to the name of its
module, and what is left are the arguments of the module. -/
theorem read_lex_sql {s : Statement} (plain : (Node.statement s.head).Plain) {depth : Nat}
    (size : (Node.statement s.head).size < depth) :
    Statement.read (Select.read depth) (lex s.sql.toList) =
      some (s.head.canonical, lex (charsOf (argumentPieces s.moduleArguments))) := by
  rw [lex_sql plain.types]
  refine reads (readable_of_plain plain s.moduleArguments_head size) _ fun h => ?_
  rw [moduleArguments_of_endsInModule h, argumentPieces, List.isEmpty_nil, if_pos rfl, charsOf_nil, lex]

/-- Two statements made by calls with the same text are the same, up to what text cannot tell apart: all
types are plain words, and no argument of a module holds a comma. -/
theorem canonical_eq_of_sql {s t : Statement}
    (madeS : ByCalls (.node (.statement s))) (madeT : ByCalls (.node (.statement t)))
    (typesS : TypesPlain s.head.leaves) (typesT : TypesPlain t.head.leaves)
    (argumentsS : CommaFree s.moduleArguments) (argumentsT : CommaFree t.moduleArguments)
    (same : s.sql = t.sql) : s.canonical = t.canonical := by
  have plainS : (Node.statement s.head).Plain := ⟨soundThroughout_head (Made.sound madeS), typesS⟩
  have plainT : (Node.statement t.head).Plain := ⟨soundThroughout_head (Made.sound madeT), typesT⟩
  have readS := read_lex_sql plainS (Nat.lt_succ_of_le (Nat.le_max_left _ (Node.statement t.head).size))
  have readT := read_lex_sql plainT (Nat.lt_succ_of_le (Nat.le_max_right (Node.statement s.head).size _))
  rw [same, readT] at readS
  obtain ⟨heads, left⟩ := Prod.mk.inj (Option.some.inj readS)
  have chars : charsOf s.head.pieces = charsOf t.head.pieces := by
    have whole := lex_sql typesS
    rw [same, lex_sql typesT, left] at whole
    rw [← charsOf_plainOf, ← List.append_cancel_right whole, charsOf_plainOf]
  have arguments : s.moduleArguments = t.moduleArguments := by
    have whole := congrArg String.toList same
    rw [toList_sql, toList_sql, chars] at whole
    exact eq_of_argumentPieces argumentsS argumentsT (List.append_cancel_left whole)
  rw [canonical_eq_head s, canonical_eq_head t, heads, arguments]

end Statement

namespace Sample

def typed : Expr := .cast (.named "a") "TEXT"

/-- A number with a sign. -/
def signed : Expr := .literal (.decimal ⟨"-5", by decide⟩)

/-- The same sign as an operator. -/
def negated : Expr := .unary .neg (.literal (.decimal ⟨"5", by decide⟩))

def inserted (source : InsertSource) : Statement :=
  .insert ⟨none, .insert, .unqualified "t", none, [], source, [], []⟩

theorem row_made {e : Expr} (plain : e.isCase = false)
    (parts : ∀ m ∈ e.parts, ByCalls (.node m)) :
    ∀ i ∈ nodeItems [.expr e, .expr typed], ByCalls i := by
  have typed_made : ByCalls (.node (.expr typed)) :=
    .expr rfl (List.forall_mem_singleton.mpr (named_made "a"))
  exact List.forall_mem_cons.mpr ⟨.expr plain parts, List.forall_mem_singleton.mpr typed_made⟩

theorem inserted_made {source : InsertSource} (call : InsertCall) {d : Draft}
    (items : ∀ i ∈ (Call.insert call).items, ByCalls i)
    (applied : Draft.apply (.insert (.start none .insert (.unqualified "t"))) (.insert call) = .ok d)
    (built : d.build = .ok (inserted source)) : ByCalls (.node (.statement (inserted source))) := by
  have opening : Start.draft (.opening none (.insert .insert (.unqualified "t"))) =
      .ok (.insert (.start none .insert (.unqualified "t"))) := rfl
  have opened : ByCalls (.draft (.insert (.start none .insert (.unqualified "t")))) :=
    .started (List.forall_mem_nil _) opening
  exact .built (.called opened items applied) built

theorem rows_made : ByCalls (.node (.statement (inserted (.values [[signed, typed]])))) := by
  have items := row_made (e := signed) rfl (List.forall_mem_nil _)
  exact inserted_made (.values [signed, typed]) items rfl rfl

theorem query_made :
    ByCalls (.node (.statement (inserted (.select (.ofBody (.values [[negated, typed]])))))) := by
  have five : ByCalls (.node (.expr (.literal (.decimal ⟨"5", by decide⟩)))) :=
    .expr rfl (List.forall_mem_nil _)
  have items : ∀ i ∈ (Start.opening none (.values [[negated, typed]])).items, ByCalls i :=
    row_made rfl (List.forall_mem_singleton.mpr five)
  have opening : Start.draft (.opening none (.values [[negated, typed]])) =
      .ok (.select ⟨.values, .ofBody (.values [[negated, typed]])⟩) := rfl
  have query : ByCalls (.node (.query (.ofBody (.values [[negated, typed]])))) :=
    .query (.started items opening)
  exact inserted_made (.select _) (List.forall_mem_singleton.mpr query) rfl rfl

end Sample

open Sample in
/-- Rows of their own and the rows of a query, a number with a sign and a sign before a number. -/
theorem Statement.canonical_eq_of_sql_rows :
    let s := inserted (.values [[signed, typed]])
    let t := inserted (.select (.ofBody (.values [[negated, typed]])))
    ByCalls (.node (.statement s)) ∧ ByCalls (.node (.statement t)) ∧ s.sql = t.sql ∧
      s.canonical = t.canonical := by
  intro s t
  have types {v : Statement} (contents : v.head.leaves = [.name "t", .name "a", .verbatim "TEXT"]) :
      TypesPlain v.head.leaves := by
    intro w hw
    have only : w = "TEXT" := by simpa [contents] using hw
    rw [only]
    exact ⟨by decide, by decide⟩
  have same : s.sql = t.sql := rfl
  exact ⟨rows_made, query_made, same, canonical_eq_of_sql rows_made query_made (types rfl) (types rfl)
    (List.forall_mem_nil _) (List.forall_mem_nil _) same⟩

end SqliteSyntax
