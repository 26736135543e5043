import SqliteSyntax.Proofs.Numbers.Value
import SqliteSyntax.Proofs.Reading.Definitions

/-! # Reading literals

`readLiteral` reads the literal that a text begins with and gives back the rest. In front of anything
that may follow a literal it finds the literal that was written and leaves what follows
(`Literal.readLiteral_sql`). Integers, reals and decimals share one text space, so of these it finds the
numeral. -/
namespace SqliteSyntax
set_option autoImplicit false

/-- The piece that a literal would be, and what follows it: a sign is part of the numeral after it. -/
def literalPiece (c : Char) (rest : List Char) : Piece × List Char :=
  if c = '-' ∨ c = '+' then
    let run := numeralRun false rest
    (.numeral (String.ofList (c :: run.1)), run.2)
  else firstPiece c rest

/-- The literal that a text begins with, and what follows it. -/
def readLiteral : List Char → Option (Literal × List Char)
  | [] => none
  | c :: rest =>
    let piece := literalPiece c rest
    (Literal.read [piece.1]).map fun read => (read.1, piece.2)

/-! ## Finding the piece -/

/-- The piece is found in front of `k`, and nothing else is taken. -/
def FoundBefore (p : Piece) (k : List Char) : Prop :=
  ∃ c rest, p.chars ++ k = c :: rest ∧ literalPiece c rest = (p, k)

namespace FoundBefore
variable {k : List Char}

theorem word {t : String} (h : isWord t = true) (hk : Ends k) : FoundBefore (.fixed t) k := by
  obtain ⟨c, rest, chars, digit, all⟩ := isWord_iff.mp h
  have letter := all c (List.mem_cons_self ..)
  have sign : ¬ (c = '-' ∨ c = '+') := fun sign =>
    sign.elim (isWordChar_ne letter (by decide)) (isWordChar_ne letter (by decide))
  refine ⟨c, rest ++ k, ?_, ?_⟩
  · rw [Piece.chars, chars, List.cons_append]
  · rw [literalPiece, if_neg sign, firstPiece_word digit all hk.apart, ← chars, String.ofList_toList]

theorem text (content : String) (hk : Ends k) : FoundBefore (.text content) k :=
  ⟨'\'', _, rfl, firstPiece_text content hk.apart⟩

theorem blob (bytes : List UInt8) (hk : Ends k) : FoundBefore (.blob bytes) k :=
  ⟨'X', _, rfl, firstPiece_blob bytes hk.apart⟩

theorem numeral {digits : String} (h : Numeral.isWritten digits.toList = true) (hk : Ends k) :
    FoundBefore (.numeral digits) k := by
  rcases Numeral.sign_of_isWritten h with unsigned | ⟨sign, rest, chars, hsign, unsigned⟩
  · obtain ⟨c, rest, chars, minus, plus, -⟩ := head_of_isUnsigned unsigned
    rw [chars] at unsigned
    refine ⟨c, rest ++ k, ?_, ?_⟩
    · rw [Piece.chars, chars, List.cons_append]
    · rw [literalPiece, if_neg (fun sign => sign.elim minus plus), firstPiece_numeral unsigned hk,
        ← chars, String.ofList_toList]
  · have run := numeralRun_append (Numeral.runsThrough_of_isUnsigned unsigned) hk
    refine ⟨sign, rest ++ k, ?_, ?_⟩
    · rw [Piece.chars, chars, List.cons_append]
    · rw [literalPiece, if_pos hsign, run]
      simp only [← chars, String.ofList_toList]

end FoundBefore

namespace Literal

/-- A literal is one piece, which is found again. -/
theorem foundBefore (l : Literal) {k : List Char} (hk : Ends k) :
    ∃ p, l.pieces = [p] ∧ FoundBefore p k := by
  cases l with
  | boolean value =>
    cases value with
    | true => exact ⟨_, rfl, .word (by decide) hk⟩
    | false => exact ⟨_, rfl, .word (by decide) hk⟩
  | integer n =>
    refine ⟨_, rfl, .numeral ?_ hk⟩
    rw [String.toList_ofList]
    exact isWritten_integerText n.toInt
  | real r => exact ⟨_, rfl, .numeral r.isWritten_text hk⟩
  | decimal n => exact ⟨_, rfl, .numeral n.written hk⟩
  | text content => exact ⟨_, rfl, .text content hk⟩
  | blob bytes => exact ⟨_, rfl, .blob bytes hk⟩
  | _ => exact ⟨_, rfl, .word (by decide) hk⟩

/-- Of the piece the literal is read, a number as its numeral. -/
theorem read_pieces (l : Literal) : Literal.read l.pieces = some (l.canonical, []) := by
  have numeral (n : Numeral) : Literal.read [.numeral n.text] = some (.decimal n, []) := by
    rw [Literal.read, n.ofText?_text, Option.map_some]
  cases l with
  | boolean value => cases value <;> rfl
  | integer n => exact numeral ⟨_, _⟩
  | real r => exact numeral ⟨_, _⟩
  | decimal n => exact numeral n
  | _ => rfl

theorem readLiteral_append (l : Literal) {k : List Char} (hk : Ends k) :
    readLiteral (l.sql.toList ++ k) = some (l.canonical, k) := by
  obtain ⟨p, piece, c, rest, chars, found⟩ := l.foundBefore hk
  have read := l.read_pieces
  rw [piece] at read
  rw [sql, textOf, String.toList_ofList, piece, charsOf_cons, charsOf_nil, List.append_nil, chars,
    readLiteral, found]
  simp only [read, Option.map_some]

/-! ## Equal texts -/

theorem sql_of_numeral {l : Literal} {n : Numeral} (h : l.numeral? = some n) : l.sql = n.text := by
  cases l with
  | integer i =>
    cases h
    exact sql_integer i
  | real r =>
    cases h
    exact sql_real r
  | decimal n =>
    cases h
    exact sql_decimal _
  | _ => exact nomatch h

/-- The canonical form of a literal is written with the same numeral, or with none. -/
theorem numeral?_canonical (l : Literal) : l.canonical.numeral? = l.numeral? := by
  cases l <;> rfl

theorem canonical_of_no_numeral {l : Literal} (h : l.numeral? = none) : l.canonical = l := by
  rw [canonical, h]

theorem eq_of_canonical {a b : Literal} (h : a.canonical = b.canonical) :
    a = b ∨ ∃ n, a.numeral? = some n ∧ b.numeral? = some n := by
  have same : a.numeral? = b.numeral? := by
    rw [← a.numeral?_canonical, ← b.numeral?_canonical, h]
  cases ha : a.numeral? with
  | none =>
    rw [canonical_of_no_numeral ha, canonical_of_no_numeral (same ▸ ha)] at h
    exact .inl h
  | some n => exact .inr ⟨n, rfl, same ▸ ha⟩

/-- Literals with one text are one literal, unless they are numbers with one numeral. -/
theorem sql_eq_iff {a b : Literal} : a.sql = b.sql ↔
    a = b ∨ ∃ n, a.numeral? = some n ∧ b.numeral? = some n := by
  constructor
  · intro same
    have read := a.readLiteral_append .nil
    rw [same, b.readLiteral_append .nil, Option.some.injEq, Prod.mk.injEq] at read
    exact eq_of_canonical read.1.symm
  · rintro (rfl | ⟨n, ha, hb⟩)
    · rfl
    · rw [sql_of_numeral ha, sql_of_numeral hb]

/-- The numeral of an integer denotes the integer. -/
theorem numeral_of_integer (n : Int64) :
    ∃ m, (Literal.integer n).canonical = .decimal m ∧ m.value = n.toInt := by
  refine ⟨⟨String.ofList (Decimal.integerText n.toInt), _⟩, rfl, ?_⟩
  rw [Numeral.value, String.toList_ofList, Numeral.valueOf_integerText]

/-- In front of the end of a text, a space, a comma, a semicolon or a closing parenthesis a literal is
read back, a number as its numeral, and the rest is left as it is; so literals with one text are one
literal unless they are numbers with one numeral. Every text and every byte string comes back as it was,
and the numeral that comes back of an integer denotes that integer. -/
theorem readLiteral_sql (k : List Char) (hk : Ends k) :
    (∀ l : Literal, readLiteral (l.sql.toList ++ k) = some (l.canonical, k)) ∧
    (∀ a b : Literal, a.sql = b.sql ↔ a = b ∨ ∃ n, a.numeral? = some n ∧ b.numeral? = some n) ∧
    (∀ content : String,
      readLiteral ((Literal.text content).sql.toList ++ k) = some (.text content, k)) ∧
    (∀ bytes : List UInt8,
      readLiteral ((Literal.blob bytes).sql.toList ++ k) = some (.blob bytes, k)) ∧
    ∀ n : Int64, ∃ m : Numeral,
      readLiteral ((Literal.integer n).sql.toList ++ k) = some (.decimal m, k) ∧ m.value = n.toInt := by
  refine ⟨fun l => l.readLiteral_append hk, fun _ _ => sql_eq_iff,
    fun content => (Literal.text content).readLiteral_append hk,
    fun bytes => (Literal.blob bytes).readLiteral_append hk, fun n => ?_⟩
  obtain ⟨m, canonical, value⟩ := numeral_of_integer n
  exact ⟨m, canonical ▸ (Literal.integer n).readLiteral_append hk, value⟩

/-- A text that tries to end itself, before the next item of a list. -/
theorem readLiteral_sql_before_comma :
    readLiteral ((Literal.text "'); DROP TABLE t; --\x00").sql.toList ++ ", 'x')".toList) =
      some (.text "'); DROP TABLE t; --\x00", ", 'x')".toList) ∧
    ∃ m : Numeral, readLiteral ((Literal.integer Int64.minValue).sql.toList ++ ", 'x')".toList) =
      some (.decimal m, ", 'x')".toList) ∧ m.value = -9223372036854775808 := by
  obtain ⟨-, -, text, -, integer⟩ := readLiteral_sql ", 'x')".toList (.cons (by decide) _)
  obtain ⟨m, read, value⟩ := integer Int64.minValue
  refine ⟨text _, m, read, ?_⟩
  rw [value]
  rfl

end Literal
end SqliteSyntax
