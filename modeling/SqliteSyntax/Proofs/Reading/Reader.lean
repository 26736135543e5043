import SqliteSyntax.Proofs.Reading.Lexing
import SqliteSyntax.Proofs.Reading.Term

/-! # Reading expressions

A reader by recursive descent over the tiers of binding strength, loosest first: `OR`, `AND`, a prefix
`NOT`, the forms of equality, comparison, bits and shifts, sums, products, `||` and the arrows, a
postfix `COLLATE`, the prefixes `-`, `+` and `~`, and primaries. Binary operators and the forms of
equality group to the left; patterns, escapes and the bounds of `BETWEEN` are read at the tier of
comparison. Spaces mean nothing besides keeping words apart.

The query between parentheses is left to another reader, `readQuery`. The first argument of each
function bounds the depth of the recursion. -/
namespace SqliteSyntax
set_option autoImplicit false

/-! ## Tiers -/

namespace Precedence

/-- The tier at which the grammar reads the operands of a tier. -/
def above : Precedence → Precedence
  | .lowest => .or
  | .or => .and
  | .and => .not
  | .not => .equality
  | .equality => .comparison
  | .comparison => .bitwise
  | .bitwise => .additive
  | .additive => .multiplicative
  | .multiplicative => .concat
  | .concat => .collate
  | .collate => .unary
  | .unary | .primary => .primary

/-- The tiers whose forms follow an operand and group to the left. -/
def isChain : Precedence → Bool
  | .not | .unary | .primary => false
  | _ => true

end Precedence

/-- A form that follows an operand. -/
inductive Follow where
  | binary (op : BinaryOp)
  | nullTest (test : NullTest)
  | pattern (op : PatternOp) (negated : Bool)
  | between (negated : Bool)
  | membership (negated : Bool)
  | escape
  | collate
deriving DecidableEq

/-- The tier at which the grammar lists a form. -/
def Follow.tier : Follow → Precedence
  | .binary .or => .or
  | .binary .and => .and
  | .binary .eq | .binary .notEq | .binary .is | .binary .isNot => .equality
  | .binary .lt | .binary .ltEq | .binary .gt | .binary .gtEq => .comparison
  | .binary .bitAnd | .binary .bitOr | .binary .leftShift | .binary .rightShift => .bitwise
  | .binary .add | .binary .sub => .additive
  | .binary .mul | .binary .div | .binary .mod => .multiplicative
  | .binary .concat | .binary .extract | .binary .extractText => .concat
  | .nullTest _ | .pattern .. | .between _ | .membership _ | .escape => .equality
  | .collate => .collate

/-! ## Words -/

/-- The pieces after leading spaces. -/
def skip : List Piece → List Piece
  | .space :: rest => skip rest
  | ps => ps

/-- What follows a word or mark that must stand here. -/
def expect (word : String) (ps : List Piece) : Option (List Piece) :=
  match skip ps with
  | .fixed t :: rest => if t = word then some rest else none
  | _ => none

/-- The operators that one word or mark stands for, in the order of the tiers. Where the grammar has a
second spelling, as `==` and `<>`, it is not read. -/
def binarySymbols : List (String × BinaryOp) :=
  [("OR", .or), ("AND", .and),
    ("=", .eq), ("!=", .notEq), ("IS", .is),
    ("<", .lt), ("<=", .ltEq), (">", .gt), (">=", .gtEq),
    ("&", .bitAnd), ("|", .bitOr), ("<<", .leftShift), (">>", .rightShift),
    ("+", .add), ("-", .sub),
    ("*", .mul), ("/", .div), ("%", .mod),
    ("||", .concat), ("->", .extract), ("->>", .extractText)]

/-- The words that compare with a pattern. -/
def patternSymbols : List (String × PatternOp) :=
  [("LIKE", .like), ("GLOB", .glob), ("MATCH", .matches), ("REGEXP", .regexp)]

theorem mem_of_lookup {α : Type} {table : List (String × α)} {word : String} {a : α}
    (h : table.lookup word = some a) : (word, a) ∈ table := by
  obtain ⟨front, back, rfl, -⟩ := List.lookup_eq_some_iff.mp h
  simp

/-- The table has each operator of one word, spelled as it is written. -/
theorem binarySymbols_lookup {word : String} {op : BinaryOp} :
    binarySymbols.lookup word = some op ↔ Phrase.words op = [word] := by
  have spelled : ∀ entry ∈ binarySymbols, Phrase.words entry.2 = [entry.1] := by decide
  refine ⟨fun h => spelled _ (mem_of_lookup h), fun h => ?_⟩
  cases op <;> cases h <;> rfl

theorem patternSymbols_lookup {word : String} {op : PatternOp} :
    patternSymbols.lookup word = some op ↔ Phrase.words op = [word] := by
  have spelled : ∀ entry ∈ patternSymbols, Phrase.words entry.2 = [entry.1] := by decide
  refine ⟨fun h => spelled _ (mem_of_lookup h), fun h => ?_⟩
  cases op <;> cases h <;> rfl

/-- The form that one word begins, if it does not depend on a second word. -/
def Follow.ofWord? (word : String) : Option Follow :=
  match word with
  | "ISNULL" => some (.nullTest .isnull)
  | "NOTNULL" => some (.nullTest .notnull)
  | "BETWEEN" => some (.between false)
  | "IN" => some (.membership false)
  | "ESCAPE" => some .escape
  | "COLLATE" => some .collate
  | word =>
    match patternSymbols.lookup word with
    | some op => some (.pattern op false)
    | none => (binarySymbols.lookup word).map .binary

/-- The form that `NOT` and a second word begin after an operand. -/
def Follow.ofNegatedWord? (word : String) : Option Follow :=
  match word with
  | "NULL" => some (.nullTest .notNull)
  | "BETWEEN" => some (.between true)
  | "IN" => some (.membership true)
  | word => (patternSymbols.lookup word).map (.pattern · true)

/-- The form that follows an operand, and what follows its words. -/
def follow (ps : List Piece) : Option (Follow × List Piece) :=
  match skip ps with
  | .fixed "IS" :: rest =>
    match skip rest with
    | .fixed "NOT" :: rest => some (.binary .isNot, rest)
    | _ => some (.binary .is, rest)
  | .fixed "NOT" :: rest =>
    match skip rest with
    | .fixed word :: rest => (Follow.ofNegatedWord? word).map (·, rest)
    | _ => none
  | .fixed word :: rest => (Follow.ofWord? word).map (·, rest)
  | _ => none

/-! ## Parts without expressions -/

/-- The operator that stands in front of an operand, other than `NOT`. -/
def prefixOp (ps : List Piece) : Option (UnaryOp × List Piece) :=
  match skip ps with
  | .fixed "-" :: rest => some (.neg, rest)
  | .fixed "+" :: rest => some (.plus, rest)
  | .fixed "~" :: rest => some (.bitNot, rest)
  | _ => none

/-- The words that stand for a value. -/
def constant? (word : String) : Option Literal :=
  match word with
  | "NULL" => some .null
  | "TRUE" => some (.boolean true)
  | "FALSE" => some (.boolean false)
  | "CURRENT_TIME" => some .currentTime
  | "CURRENT_DATE" => some .currentDate
  | "CURRENT_TIMESTAMP" => some .currentTimestamp
  | _ => none

/-- What follows a parenthesis, if it touches the name before it. -/
def callOpening : List Piece → Option (List Piece)
  | .fixed "(" :: rest => some rest
  | _ => none

/-- A column whose first name is already read. -/
def columnAfter (first : String) : List Piece → ColumnRef × List Piece
  | .fixed "." :: .name second :: .fixed "." :: .name third :: rest =>
    (⟨some (.table ⟨some first, second⟩), third⟩, rest)
  | .fixed "." :: .name second :: rest => (⟨some (.table ⟨none, first⟩), second⟩, rest)
  | rest => (⟨none, first⟩, rest)

/-- The names of the built-in functions. -/
def builtinNames : List (String × Builtin) :=
  [("ABS", .abs), ("AVG", .avg), ("CHANGES", .changes), ("COALESCE", .coalesce), ("COUNT", .count),
    ("DATE", .date), ("DATETIME", .datetime), ("GROUP_CONCAT", .groupConcat), ("HEX", .hex),
    ("IFNULL", .ifnull), ("IIF", .iif), ("INSTR", .instr), ("JSON", .json),
    ("JSON_ARRAY", .jsonArray), ("JSON_EXTRACT", .jsonExtract), ("JSON_OBJECT", .jsonObject),
    ("JULIANDAY", .julianday), ("LAST_INSERT_ROWID", .lastInsertRowid), ("LENGTH", .length),
    ("LIKELY", .likely), ("LOWER", .lower), ("LTRIM", .ltrim), ("MAX", .max), ("MIN", .min),
    ("NULLIF", .nullif), ("PRINTF", .printf), ("QUOTE", .quote), ("RANDOM", .random),
    ("REPLACE", .replace), ("ROUND", .round), ("RTRIM", .rtrim), ("STRFTIME", .strftime),
    ("SUBSTR", .substr), ("SUM", .sum), ("TIME", .time), ("TOTAL", .total), ("TRIM", .trim),
    ("TYPEOF", .typeof), ("UNICODE", .unicode), ("UPPER", .upper)]

/-- The table has each function, by the name that is written. -/
theorem builtinNames_lookup {word : String} {function : Builtin} :
    builtinNames.lookup word = some function ↔ function.sql = word := by
  have spelled : ∀ entry ∈ builtinNames, entry.2.sql = entry.1 := by decide
  refine ⟨fun h => spelled _ (mem_of_lookup h), fun h => ?_⟩
  cases function <;> cases h <;> rfl

/-- What `RAISE` does, and what follows the closing parenthesis. -/
def readRaise (ps : List Piece) : Option (RaiseAction × List Piece) :=
  match skip ps with
  | .fixed "IGNORE" :: rest => (expect ")" rest).map (.ignore, ·)
  | .fixed word :: rest =>
    match expect "," rest with
    | some rest =>
      match skip rest with
      | .text message :: rest =>
        match word with
        | "ROLLBACK" => (expect ")" rest).map (.rollback message, ·)
        | "ABORT" => (expect ")" rest).map (.abort message, ·)
        | "FAIL" => (expect ")" rest).map (.fail message, ·)
        | _ => none
      | _ => none
    | none => none
  | _ => none

/-- The pieces up to the parenthesis that closes here, with so many parentheses open inside, and what
follows it. -/
def closing : Nat → List Piece → Option (List Piece × List Piece)
  | _, [] => none
  | depth, p :: rest =>
    if p = .fixed ")" then
      match depth with
      | 0 => some ([], rest)
      | depth + 1 => (closing depth rest).map fun split => (p :: split.1, split.2)
    else
      (closing (if p = .fixed "(" then depth + 1 else depth) rest).map fun split =>
        (p :: split.1, split.2)

/-- Whether a query begins here: no expression begins with its words. -/
def beginsQuery (ps : List Piece) : Bool :=
  match skip ps with
  | .fixed word :: _ => word == "SELECT" || word == "VALUES" || word == "WITH"
  | _ => false

/-! ## Expressions -/

variable {Q : Type} (readQuery : List Piece → Option Q)

/-- A query and the parenthesis that closes after it. -/
def readEnclosed (ps : List Piece) : Option (Q × List Piece) := do
  let (inner, rest) ← closing 0 ps
  let q ← readQuery inner
  return (q, rest)

mutual

/-- An expression at a tier, and what follows it. -/
def readAt : Nat → Precedence → List Piece → Option (Term Q × List Piece)
  | 0, _, _ => none
  | n + 1, .primary, ps => readPrimary n ps
  | n + 1, .unary, ps =>
    match prefixOp ps with
    | some (op, rest) => do
      let (x, rest) ← readAt n .unary rest
      return (.unary op x, rest)
    | none => readAt n .primary ps
  | n + 1, .not, ps =>
    match expect "NOT" ps with
    | some rest => do
      let (x, rest) ← readAt n .not rest
      return (.unary .not x, rest)
    | none => readAt n .equality ps
  | n + 1, tier, ps => do
    let (x, rest) ← readAt n tier.above ps
    readMore n tier x rest

/-- The forms of a tier that follow an operand, one after the other. -/
def readMore : Nat → Precedence → Term Q → List Piece → Option (Term Q × List Piece)
  | 0, _, _, _ => none
  | n + 1, tier, x, ps =>
    match follow ps with
    | some (form, rest) =>
      if form.tier = tier then do
        let (y, rest) ← readFollow n x form rest
        readMore n tier y rest
      else return (x, ps)
    | none => return (x, ps)

/-- What follows the words of a form. -/
def readFollow : Nat → Term Q → Follow → List Piece → Option (Term Q × List Piece)
  | 0, _, _, _ => none
  | n + 1, x, .binary op, ps => do
    let (y, rest) ← readAt n (Follow.binary op).tier.above ps
    return (.binary op x y, rest)
  | _ + 1, x, .nullTest test, ps => return (.nullTest test x, ps)
  | n + 1, x, .pattern op negated, ps => do
    let (y, rest) ← readAt n .comparison ps
    let (escape, rest) ← readClause n "ESCAPE" .comparison rest
    return (.pattern op negated x y escape, rest)
  | n + 1, x, .between negated, ps => do
    let (low, rest) ← readAt n .comparison ps
    let rest ← expect "AND" rest
    let (high, rest) ← readAt n .comparison rest
    return (.between negated x low high, rest)
  | n + 1, x, .membership negated, ps => do
    let rest ← expect "(" ps
    if beginsQuery rest then
      let (q, rest) ← readEnclosed readQuery rest
      return (.inSelect negated x q, rest)
    else
      let (items, rest) ← readItems n rest
      return (.inList negated x items, rest)
  | _ + 1, _, .escape, _ => none
  | _ + 1, x, .collate, ps =>
    match skip ps with
    | .name collation :: rest => return (.collate x collation, rest)
    | _ => none

/-- An expression after a word, if the word stands here. -/
def readClause : Nat → String → Precedence → List Piece → Option (Option (Term Q) × List Piece)
  | 0, _, _, _ => none
  | n + 1, word, tier, ps =>
    match expect word ps with
    | some rest => do
      let (x, rest) ← readAt n tier rest
      return (some x, rest)
    | none => return (none, ps)

/-- Expressions up to a closing parenthesis, at least one. -/
def readList : Nat → List Piece → Option (List (Term Q) × List Piece)
  | 0, _ => none
  | n + 1, ps => do
    let (x, rest) ← readAt n .lowest ps
    match expect ")" rest with
    | some rest => return ([x], rest)
    | none => do
      let rest ← expect "," rest
      let (items, rest) ← readList n rest
      return (x :: items, rest)

/-- Expressions up to a closing parenthesis. -/
def readItems : Nat → List Piece → Option (List (Term Q) × List Piece)
  | 0, _ => none
  | n + 1, ps =>
    match expect ")" ps with
    | some rest => return ([], rest)
    | none => readList n ps

/-- The branches of a `CASE`, none if no `WHEN` stands here. -/
def readBranches : Nat → List Piece → Option (List (Term Q × Term Q) × List Piece)
  | 0, _ => none
  | n + 1, ps =>
    match expect "WHEN" ps with
    | some rest => do
      let (condition, rest) ← readAt n .lowest rest
      let rest ← expect "THEN" rest
      let (result, rest) ← readAt n .lowest rest
      let (branches, rest) ← readBranches n rest
      return ((condition, result) :: branches, rest)
    | none => return ([], ps)

/-- The arguments of a call, after its opening parenthesis. -/
def readCall : Nat → FunctionName → List Piece → Option (Term Q × List Piece)
  | 0, _, _ => none
  | n + 1, function, ps => do
    let (distinct, rest) :=
      match expect "DISTINCT" ps with
      | some rest => (true, rest)
      | none => (false, ps)
    match expect "*" rest with
    | some rest => do
      let rest ← expect ")" rest
      return (.callStar function distinct, rest)
    | none => do
      let (arguments, rest) ← readItems n rest
      return (.call function distinct arguments, rest)

/-- What a `CASE` compares with, unless its branches begin here. -/
def readSubject : Nat → List Piece → Option (Option (Term Q) × List Piece)
  | 0, _ => none
  | n + 1, ps =>
    match expect "WHEN" ps with
    | some _ => return (none, ps)
    | none => do
      let (x, rest) ← readAt n .lowest ps
      return (some x, rest)

/-- A `CASE`, after that word. -/
def readCase : Nat → List Piece → Option (Term Q × List Piece)
  | 0, _ => none
  | n + 1, ps => do
    let (operand, rest) ← readSubject n ps
    let (branches, rest) ← readBranches n rest
    let (otherwise, rest) ← readClause n "ELSE" .lowest rest
    let rest ← expect "END" rest
    if branches.isEmpty then none else return (.caseWhen operand branches otherwise, rest)

/-- What a word begins. -/
def readWord : Nat → String → List Piece → Option (Term Q × List Piece)
  | 0, _, _ => none
  | n + 1, word, ps =>
    match word with
    | "(" =>
      if beginsQuery ps then do
        let (q, rest) ← readEnclosed readQuery ps
        return (.subquery q, rest)
      else do
        let (items, rest) ← readItems n ps
        return (.ofRow items, rest)
    | "CASE" => readCase n ps
    | "CAST" => do
      let rest ← expect "(" ps
      let (x, rest) ← readAt n .lowest rest
      let rest ← expect "AS" rest
      match skip rest with
      | .fixed typeName :: rest => do
        let rest ← expect ")" rest
        return (.cast x typeName, rest)
      | _ => none
    | "EXISTS" => do
      let rest ← expect "(" ps
      let (q, rest) ← readEnclosed readQuery rest
      return (.existsRow q, rest)
    | "RAISE" => do
      let rest ← expect "(" ps
      let (action, rest) ← readRaise rest
      return (.raise action, rest)
    | "NEW" =>
      match ps with
      | .fixed "." :: .name column :: rest => return (.column ⟨some .new, column⟩, rest)
      | _ => none
    | "OLD" =>
      match ps with
      | .fixed "." :: .name column :: rest => return (.column ⟨some .old, column⟩, rest)
      | _ => none
    | word =>
      match constant? word with
      | some value => return (.literal value, ps)
      | none =>
        match builtinNames.lookup word with
        | some function => do
          let rest ← expect "(" ps
          readCall n (.builtin function) rest
        | none => none

/-- An operand without operators outside of parentheses. -/
def readPrimary : Nat → List Piece → Option (Term Q × List Piece)
  | 0, _ => none
  | n + 1, ps =>
    match skip ps with
    | .numeral digits :: rest => return (.numeral digits, rest)
    | .text value :: rest => return (.literal (.text value), rest)
    | .blob bytes :: rest => return (.literal (.blob bytes), rest)
    | .name first :: rest =>
      match callOpening rest with
      | some rest => readCall n (.defined first) rest
      | none => return (.column (columnAfter first rest).1, (columnAfter first rest).2)
    | .fixed word :: rest => readWord n word rest
    | _ => none

end

end SqliteSyntax
