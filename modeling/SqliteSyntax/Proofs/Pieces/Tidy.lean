import SqliteSyntax.Function
import SqliteSyntax.Keyword
import SqliteSyntax.Number.Numeral

/-! # Tidy text

`Tidy ps`: the pieces stand so that no two of them run together in the text. Names, texts, numerals,
words and operators are kept apart by spaces, commas and parentheses; the few that touch (a call, a
qualified name, a sign before its operand) touch in a way that leaves both readable.

The rest of the theory of statement text is by induction on this predicate: what pieces a text
shows, where its quotes and parentheses close, that it opens no comment. -/
namespace SqliteSyntax
set_option autoImplicit false

/-! ## Words and marks -/

/-- Letters, digits, the underscore and every character outside ASCII. -/
def isWordChar (c : Char) : Bool := c.isAlphanum || c == '_' || 127 < c.toNat

/-- A plain word: word characters, of which the first is no digit. -/
def isWord (t : String) : Bool :=
  match t.toList with
  | [] => false
  | c :: cs => !c.isDigit && (c :: cs).all isWordChar

/-- The marks that stand between operands, and the star. -/
def operatorMarks : List String :=
  ["=", "!=", "<", "<=", ">", ">=", "&", "|", "<<", ">>", "+", "-", "*", "/", "%", "||", "->", "->>"]

/-- The marks that stand directly before their operand. -/
def prefixMarks : List String := ["-", "+", "~"]

/-- The fixed words and marks that an operand can begin with. -/
def operandOpenings : List String :=
  ["NULL", "TRUE", "FALSE", "CURRENT_TIME", "CURRENT_DATE", "CURRENT_TIMESTAMP", "NEW", "OLD", "NOT",
    "EXISTS", "CASE", "CAST", "RAISE", "(", "-", "+", "~"] ++ Builtin.all.map Builtin.sql

theorem isWord_sql (f : Builtin) : isWord f.sql = true := by
  cases f <;> decide

theorem sql_mem_operandOpenings (f : Builtin) : f.sql ∈ operandOpenings :=
  List.mem_append_right _ (List.mem_map_of_mem (Builtin.mem_all f))

namespace Piece

/-- Pieces that may stand between spaces, commas and parentheses. -/
def standsAlone : Piece → Bool
  | .fixed t => isWord t || decide (t ∈ operatorMarks)
  | .numeral digits => Numeral.isWritten digits.toList
  | .name _ | .text _ | .blob _ | .verbatim _ => true
  | .space | .groupOpen | .groupClose => false

/-- Pieces that an operand can begin with. -/
def opensOperand : Piece → Bool
  | .fixed t => decide (t ∈ operandOpenings)
  | .numeral digits => Numeral.isWritten digits.toList
  | .name _ | .text _ | .blob _ | .groupOpen => true
  | .space | .verbatim _ | .groupClose => false

/-- Pieces that a parenthesis or a dot may follow directly. -/
def isLabel : Piece → Bool
  | .fixed t => isWord t
  | .name _ => true
  | _ => false

/-- Pieces that may follow a dot. -/
def isMember : Piece → Bool
  | .name _ => true
  | .fixed t => t == "*"
  | _ => false

end Piece

/-! ## The predicate -/

inductive Tidy : List Piece → Prop where
  | nil : Tidy []
  | one {p : Piece} (alone : p.standsAlone = true) : Tidy [p]
  | spaced {a b : List Piece} (left : Tidy a) (right : Tidy b) : Tidy (a ++ .space :: b)
  | listed {a b : List Piece} (left : Tidy a) (right : Tidy b) :
    Tidy (a ++ .fixed "," :: .space :: b)
  | ended {a b : List Piece} (left : Tidy a) (right : Tidy b) :
    Tidy (a ++ .fixed ";" :: .space :: b)
  | enclosed {a : List Piece} (inner : Tidy a) : Tidy (.fixed "(" :: a ++ [.fixed ")"])
  | grouped {a : List Piece} (inner : Tidy a) : Tidy (.groupOpen :: a ++ [.groupClose])
  | called {p : Piece} {a : List Piece} (label : p.isLabel = true) (inner : Tidy a) :
    Tidy (p :: .fixed "(" :: a ++ [.fixed ")"])
  | dotted {p q : Piece} {a : List Piece} (label : p.isLabel = true) (member : q.isMember = true)
    (rest : Tidy (q :: a)) : Tidy (p :: .fixed "." :: q :: a)
  | signed {m : String} {p : Piece} {a : List Piece} (mark : m ∈ prefixMarks)
    (opens : p.opensOperand = true) (apart : m = "~" ∨ leadsWithSign (p :: a) = false)
    (operand : Tidy (p :: a)) : Tidy (.fixed m :: p :: a)

theorem Piece.standsAlone_of_isLabel {p : Piece} (h : p.isLabel = true) : p.standsAlone = true := by
  cases p with
  | fixed t => rw [standsAlone, show isWord t = true from h, Bool.true_or]
  | name n => rfl
  | _ => exact Bool.noConfusion h

/-- The marks that no operand touches with a space between, other than signs. -/
def punctuation : List String := [",", ";", "(", ")", ".", "~"]

/-- What holds of all pieces that can stand alone and of the punctuation holds of all pieces of a tidy
text. -/
theorem Tidy.forall_mem {P : Piece → Prop} (alone : ∀ p : Piece, p.standsAlone = true → P p)
    (space : P .space) (groupOpen : P .groupOpen) (groupClose : P .groupClose)
    (mark : ∀ t ∈ punctuation, P (.fixed t)) {ps : List Piece} (h : Tidy ps) : ∀ p ∈ ps, P p := by
  have comma := mark "," (by decide)
  have semicolon := mark ";" (by decide)
  have opening := mark "(" (by decide)
  have closing := mark ")" (by decide)
  have dot := mark "." (by decide)
  induction h with
  | nil => simp
  | one ha =>
    intro p hp
    rw [List.mem_singleton.mp hp]
    exact alone _ ha
  | spaced _ _ ihl ihr =>
    simp only [List.mem_append, List.mem_cons]
    rintro p (hp | rfl | hp)
    · exact ihl p hp
    · exact space
    · exact ihr p hp
  | listed _ _ ihl ihr =>
    simp only [List.mem_append, List.mem_cons]
    rintro p (hp | rfl | rfl | hp)
    · exact ihl p hp
    · exact comma
    · exact space
    · exact ihr p hp
  | ended _ _ ihl ihr =>
    simp only [List.mem_append, List.mem_cons]
    rintro p (hp | rfl | rfl | hp)
    · exact ihl p hp
    · exact semicolon
    · exact space
    · exact ihr p hp
  | enclosed _ ih =>
    simp only [List.mem_append, List.mem_cons, List.not_mem_nil, or_false]
    rintro p ((rfl | hp) | rfl)
    · exact opening
    · exact ih p hp
    · exact closing
  | grouped _ ih =>
    simp only [List.mem_append, List.mem_cons, List.not_mem_nil, or_false]
    rintro p ((rfl | hp) | rfl)
    · exact groupOpen
    · exact ih p hp
    · exact groupClose
  | called hl _ ih =>
    simp only [List.mem_append, List.mem_cons, List.not_mem_nil, or_false]
    rintro p ((rfl | rfl | hp) | rfl)
    · exact alone _ (Piece.standsAlone_of_isLabel hl)
    · exact opening
    · exact ih p hp
    · exact closing
  | @dotted label member rest hl hm _ ih =>
    intro p hp
    rcases List.mem_cons.mp hp with rfl | hp
    · exact alone _ (Piece.standsAlone_of_isLabel hl)
    · rcases List.mem_cons.mp hp with rfl | hp
      · exact dot
      · exact ih p hp
  | @signed m first rest hm _ _ _ ih =>
    intro p hp
    rcases List.mem_cons.mp hp with rfl | hp
    · by_cases ht : m = "~"
      · subst ht
        exact mark "~" (by decide)
      · refine alone _ ?_
        have marks : ∀ m ∈ prefixMarks, m ≠ "~" → (Piece.fixed m).standsAlone = true := by decide
        exact marks m hm ht
    · exact ih p hp

/-- Nothing, or a space and tidy text: what may follow any tidy text. -/
def Trailing (ps : List Piece) : Prop :=
  ps = [] ∨ ∃ qs, ps = .space :: qs ∧ Tidy qs

/-- Nothing, or tidy text and a space: what may stand before any tidy text. -/
def Leading (ps : List Piece) : Prop :=
  ps = [] ∨ ∃ qs, ps = qs ++ [.space] ∧ Tidy qs

/-! ## Closure under the ways of putting pieces together -/

theorem Trailing.nil : Trailing [] := Or.inl rfl

theorem Tidy.trailing {ps : List Piece} (h : Tidy ps) : Trailing (.space :: ps) :=
  Or.inr ⟨ps, rfl, h⟩

theorem Tidy.append {a b : List Piece} (ha : Tidy a) (hb : Trailing b) : Tidy (a ++ b) := by
  obtain rfl | ⟨qs, rfl, hq⟩ := hb
  · rw [List.append_nil]
    exact ha
  · exact .spaced ha hq



theorem Trailing.append {a b : List Piece} (ha : Trailing a) (hb : Trailing b) :
    Trailing (a ++ b) := by
  obtain rfl | ⟨qs, rfl, hq⟩ := ha
  · exact hb
  · exact (hq.append hb).trailing

theorem Leading.append {a b : List Piece} (ha : Leading a) (hb : Tidy b) : Tidy (a ++ b) := by
  obtain rfl | ⟨qs, rfl, hq⟩ := ha
  · exact hb
  · rw [List.append_assoc]
    exact .spaced hq hb

theorem Tidy.leading {ps : List Piece} (h : Tidy ps) : Leading (ps ++ [.space]) :=
  Or.inr ⟨ps, rfl, h⟩

theorem Trailing.flatMap {α : Type} {f : α → List Piece} {items : List α}
    (h : ∀ a ∈ items, Tidy (f a)) : Trailing (items.flatMap fun a => .space :: f a) := by
  induction items with
  | nil => exact .nil
  | cons a rest ih =>
    have head := (h a (List.mem_cons_self ..)).trailing
    exact head.append (ih fun b hb => h b (List.mem_cons_of_mem a hb))

theorem Tidy.parenthesized {ps : List Piece} (h : Tidy ps) : Tidy (parenthesized ps) :=
  .enclosed h

theorem Tidy.groupedIf {ps : List Piece} (needed : Bool) (h : Tidy ps) :
    Tidy (groupedIf needed ps) := by
  cases needed with
  | false => exact h
  | true => exact .grouped h

theorem Tidy.separated {separator : List Piece}
    (join : ∀ a b : List Piece, Tidy a → Tidy b → Tidy (a ++ separator ++ b))
    {parts : List (List Piece)} (h : ∀ ps ∈ parts, Tidy ps) :
    Tidy (SqliteSyntax.separated separator parts) := by
  induction parts with
  | nil => exact .nil
  | cons part rest ih =>
    have head := h part (List.mem_cons_self ..)
    have tail := ih fun ps hps => h ps (List.mem_cons_of_mem part hps)
    cases rest with
    | nil => exact head
    | cons next rest => exact join part _ head tail

theorem Tidy.commaSeparated {parts : List (List Piece)} (h : ∀ ps ∈ parts, Tidy ps) :
    Tidy (commaSeparated parts) := by
  refine Tidy.separated (fun a b ha hb => ?_) h
  rw [List.append_assoc]
  exact .listed ha hb

theorem Tidy.word {t : String} (h : isWord t = true) : Tidy [.fixed t] :=
  .one (by rw [Piece.standsAlone, h, Bool.true_or])

theorem Tidy.phrase {words : List String}
    (h : ∀ w ∈ words, (Piece.fixed w).standsAlone = true) : Tidy (phrase words) := by
  refine Tidy.separated (fun a b ha hb => ?_) fun ps hps => ?_
  · rw [List.append_assoc]
    exact .spaced ha hb
  · obtain ⟨w, hw, rfl⟩ := List.mem_map.mp hps
    exact .one (h w hw)

theorem Tidy.name (content : String) : Tidy [.name content] := .one rfl

theorem Tidy.text (content : String) : Tidy [.text content] := .one rfl

theorem Tidy.verbatim (content : String) : Tidy [.verbatim content] := .one rfl

theorem Tidy.nameList (names : List String) : Tidy (nameList names) := by
  refine .enclosed (.commaSeparated fun ps hps => ?_)
  obtain ⟨n, -, rfl⟩ := List.mem_map.mp hps
  exact .name n

theorem Trailing.spaced {part : Option (List Piece)} (h : ∀ ps, part = some ps → Tidy ps) :
    Trailing (spaced part) := by
  cases part with
  | none => exact .nil
  | some ps => exact (h ps rfl).trailing

theorem Trailing.clause {words : List String} {body : Option (List Piece)}
    (hw : ∀ w ∈ words, (Piece.fixed w).standsAlone = true) (hb : ∀ ps, body = some ps → Tidy ps) :
    Trailing (clause words body) := by
  cases body with
  | none => exact .nil
  | some ps => exact (Tidy.spaced (.phrase hw) (hb ps rfl)).trailing

theorem Trailing.onlyIf {ps : List Piece} (condition : Bool) (h : Trailing ps) :
    Trailing (onlyIf condition ps) := by
  cases condition with
  | false => exact .nil
  | true => exact h

/-- A choice of phrases whose words can all stand alone. -/
theorem Trailing.choice {α : Type} [Phrase α] (h : ∀ a : α, Tidy (Phrase.pieces a))
    (a : Option α) : Trailing (Phrase.optional a) := by
  cases a with
  | none => exact .nil
  | some a => exact (h a).trailing

end SqliteSyntax
