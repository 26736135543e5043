import SqliteSyntax.Proofs.Pieces.Numerals
import SqliteSyntax.Proofs.Pieces.Tidy

/-! # Taking text apart

`lex` cuts a text into pieces: quoted tokens, numerals without a sign, words, marks and single spaces.
It knows nothing of where the text came from: a parenthesis of precedence is a parenthesis and a word
that the caller supplied is a word (`Piece.plain`). The pieces of tidy text are found again, whatever
they are (`Tidy.lexes`). -/
namespace SqliteSyntax
set_option autoImplicit false

/-! ## Single pieces -/

/-- The content of a quoted token after its opening delimiter, and what follows the token. -/
def unquote (delimiter : Char) : List Char → Option (List Char × List Char)
  | [] => none
  | [c] => if c = delimiter then some ([], []) else none
  | c :: d :: rest =>
    if c = delimiter then
      if d = delimiter then (unquote delimiter rest).map fun token => (c :: token.1, token.2)
      else some ([], d :: rest)
    else (unquote delimiter (d :: rest)).map fun token => (c :: token.1, token.2)

/-- A numeral as far as it goes on, and what follows it. -/
def numeralRun : Bool → List Char → List Char × List Char
  | _, [] => ([], [])
  | afterMark, c :: rest =>
    if Numeral.goesOn afterMark c then
      let run := numeralRun (Numeral.isExponentMark c) rest
      (c :: run.1, run.2)
    else ([], c :: rest)

/-- A numeral begins with a digit, or with a point and a digit. -/
def beginsNumeral (c : Char) (rest : List Char) : Bool :=
  c.isDigit || c == '.' && rest.head?.any Char.isDigit

/-- The marks of more than one character, of two with one beginning the longer one first. A comment
opens with a mark too, one that no grammar rule asks for. -/
def longMarks : List String :=
  ["->>", "->", "--", "/*", "||", "<<", "<=", "<>", ">>", ">=", "!=", "=="]

/-- The longest mark that the text begins with, and what follows it. -/
def leadingMark (c : Char) (rest : List Char) : String × List Char :=
  match longMarks.find? (·.toList.isPrefixOf (c :: rest)) with
  | some mark => (mark, rest.drop (mark.length - 1))
  | none => (String.singleton c, rest)

/-- The first piece of a text, and what follows it. A quote that never closes is a mark of its own. -/
def firstPiece (c : Char) (rest : List Char) : Piece × List Char :=
  if c = ' ' then (.space, rest)
  else if c = '"' then
    match unquote '"' rest with
    | some (content, k) => (.name (String.ofList content), k)
    | none => (.fixed "\"", rest)
  else if c = '\'' then
    match unquote '\'' rest with
    | some (content, k) => (.text (String.ofList content), k)
    | none => (.fixed "'", rest)
  else if beginsNumeral c rest then
    let run := numeralRun false rest
    (.numeral (String.ofList (c :: run.1)), run.2)
  else if c = 'X' ∧ rest.head? = some '\'' then
    match unquote '\'' rest.tail with
    | some (digits, k) =>
      match Hex.toBytes? digits with
      | some bytes => (.blob bytes, k)
      | none => (.fixed "X", rest)
    | none => (.fixed "X", rest)
  else if isWordChar c then
    (.fixed (String.ofList (c :: rest.takeWhile isWordChar)), rest.dropWhile isWordChar)
  else
    let mark := leadingMark c rest
    (.fixed mark.1, mark.2)

theorem unquote_length {delimiter : Char} : (cs : List Char) → {token : List Char × List Char} →
    unquote delimiter cs = some token → token.2.length ≤ cs.length
  | [], token, h => by simp [unquote] at h
  | [c], token, h => by
    rw [unquote] at h
    split at h
    · cases h
      exact Nat.zero_le _
    · simp at h
  | c :: d :: rest, token, h => by
    rw [unquote] at h
    split at h
    · split at h
      · obtain ⟨inner, hinner, rfl⟩ := Option.map_eq_some_iff.mp h
        have := unquote_length rest hinner
        simp only [List.length_cons]
        omega
      · cases h
        exact Nat.le_succ _
    · obtain ⟨inner, hinner, rfl⟩ := Option.map_eq_some_iff.mp h
      have := unquote_length (d :: rest) hinner
      exact Nat.le_succ_of_le this

theorem numeralRun_length (afterMark : Bool) (cs : List Char) :
    (numeralRun afterMark cs).2.length ≤ cs.length := by
  induction cs generalizing afterMark with
  | nil => exact Nat.le_refl _
  | cons c rest ih =>
    rw [numeralRun]
    split
    · exact Nat.le_succ_of_le (ih _)
    · exact Nat.le_refl _

theorem firstPiece_length (c : Char) (rest : List Char) :
    (firstPiece c rest).2.length ≤ rest.length := by
  unfold firstPiece
  split
  · exact Nat.le_refl _
  split
  · split
    · next h => exact unquote_length rest h
    · exact Nat.le_refl _
  split
  · split
    · next h => exact unquote_length rest h
    · exact Nat.le_refl _
  split
  · exact numeralRun_length false rest
  split
  · split
    · next h =>
      have shorter := unquote_length _ h
      rw [List.length_tail] at shorter
      split
      · exact Nat.le_trans shorter (Nat.sub_le ..)
      · exact Nat.le_refl _
    · exact Nat.le_refl _
  split
  · exact (List.dropWhile_suffix _).length_le
  · rw [leadingMark]
    split
    · simp only [List.length_drop]
      omega
    · exact Nat.le_refl _

/-- The pieces of a text. -/
def lex : List Char → List Piece
  | [] => []
  | c :: rest => (firstPiece c rest).1 :: lex (firstPiece c rest).2
termination_by cs => cs.length
decreasing_by exact Nat.lt_succ_of_le (firstPiece_length c rest)

theorem lex_cons {c : Char} {rest k : List Char} {p : Piece} (h : firstPiece c rest = (p, k)) :
    lex (c :: rest) = p :: lex k := by
  rw [lex, h]

/-! ## What a lexer sees of a piece -/

/-- A signed numeral is a sign and a numeral. -/
def plainNumeral (digits : String) : List Piece :=
  match digits.toList with
  | '-' :: rest => [.fixed "-", .numeral (String.ofList rest)]
  | '+' :: rest => [.fixed "+", .numeral (String.ofList rest)]
  | _ => [.numeral digits]

/-- The pieces that the text of a piece shows. -/
def Piece.plain : Piece → List Piece
  | .numeral digits => plainNumeral digits
  | .verbatim content => [.fixed content]
  | .groupOpen => [.fixed "("]
  | .groupClose => [.fixed ")"]
  | p => [p]

def plainOf (ps : List Piece) : List Piece := ps.flatMap Piece.plain

@[simp] theorem plainOf_nil : plainOf [] = [] := rfl

@[simp] theorem plainOf_cons (p : Piece) (ps : List Piece) :
    plainOf (p :: ps) = p.plain ++ plainOf ps := rfl

@[simp] theorem plainOf_append (a b : List Piece) : plainOf (a ++ b) = plainOf a ++ plainOf b :=
  List.flatMap_append

theorem charsOf_plainNumeral (digits : String) : charsOf (plainNumeral digits) = digits.toList := by
  unfold plainNumeral
  split
  · next rest h => simp [Piece.chars, h]
  · next rest h => simp [Piece.chars, h]
  · simp [Piece.chars]

/-- What a lexer sees has the same text. -/
theorem charsOf_plainOf (ps : List Piece) : charsOf (plainOf ps) = charsOf ps := by
  induction ps with
  | nil => rfl
  | cons p rest ih =>
    rw [plainOf_cons, charsOf_append, charsOf_cons, ih]
    cases p with
    | numeral digits => rw [Piece.plain, charsOf_plainNumeral, Piece.chars]
    | _ => simp [Piece.plain, Piece.chars]

/-! ## What may follow a piece -/

/-- The text is at its end, or goes on with a space or a mark that closes. -/
def Ends (cs : List Char) : Prop := ∀ c ∈ cs.head?, c ∈ [' ', ',', ';', ')']

/-- What may follow a word or a name: besides these, a parenthesis or a dot. -/
def Apart (cs : List Char) : Prop := ∀ c ∈ cs.head?, c ∈ [' ', ',', ';', ')', '(', '.']

theorem Ends.nil : Ends [] := by
  intro c hc
  exact absurd hc (by simp)

theorem Ends.cons {c : Char} (h : c ∈ [' ', ',', ';', ')']) (rest : List Char) :
    Ends (c :: rest) := by
  intro d hd
  rw [List.head?_cons, Option.mem_some_iff] at hd
  rw [← hd]
  exact h

theorem Apart.cons {c : Char} (h : c ∈ [' ', ',', ';', ')', '(', '.']) (rest : List Char) :
    Apart (c :: rest) := by
  intro d hd
  rw [List.head?_cons, Option.mem_some_iff] at hd
  rw [← hd]
  exact h

theorem Ends.apart {cs : List Char} (h : Ends cs) : Apart cs := by
  have sub : [' ', ',', ';', ')'].all (· ∈ [' ', ',', ';', ')', '(', '.']) = true := by decide
  exact fun c hc => of_decide_eq_true (List.all_eq_true.mp sub c (h c hc))

/-- The pieces are found in front of `k`. -/
def Lexes (ps : List Piece) (k : List Char) : Prop :=
  lex (charsOf ps ++ k) = plainOf ps ++ lex k

theorem Lexes.nil (k : List Char) : Lexes [] k := rfl

theorem Lexes.append {a b : List Piece} {k : List Char} (ha : Lexes a (charsOf b ++ k))
    (hb : Lexes b k) : Lexes (a ++ b) k := by
  unfold Lexes at ha hb ⊢
  rw [charsOf_append, List.append_assoc, ha, hb, plainOf_append, List.append_assoc]

theorem Lexes.cons {p : Piece} {ps : List Piece} {k : List Char} (hp : Lexes [p] (charsOf ps ++ k))
    (hps : Lexes ps k) : Lexes (p :: ps) k :=
  Lexes.append (a := [p]) hp hps

theorem Lexes.of_first {p : Piece} {c : Char} {rest k : List Char} (chars : p.chars = c :: rest)
    (plain : p.plain = [p]) (h : firstPiece c (rest ++ k) = (p, k)) : Lexes [p] k := by
  unfold Lexes
  rw [charsOf_cons, charsOf_nil, List.append_nil, chars, List.cons_append, lex_cons h, plainOf_cons,
    plain]
  rfl

/-! ## Quoted tokens -/

theorem unquote_doubled (delimiter : Char) (cs : List Char) {k : List Char}
    (hk : ∀ c ∈ k.head?, c ≠ delimiter) :
    unquote delimiter (Quoted.doubled delimiter cs ++ delimiter :: k) = some (cs, k) := by
  induction cs with
  | nil =>
    cases k with
    | nil => simp [Quoted.doubled, unquote]
    | cons d k =>
      have hd : d ≠ delimiter := hk d rfl
      simp [Quoted.doubled, unquote, hd]
  | cons c rest ih =>
    rw [Quoted.doubled]
    split
    · next hc =>
      rw [List.cons_append, List.cons_append, unquote, if_pos hc, if_pos hc, ih]
      rfl
    · next hc =>
      obtain ⟨d, tail, h⟩ : ∃ d tail, Quoted.doubled delimiter rest ++ delimiter :: k = d :: tail :=
        List.exists_cons_of_ne_nil (by simp)
      rw [List.cons_append, h, unquote, if_neg hc, ← h, ih]
      rfl

theorem Apart.ne {cs : List Char} {d : Char} (h : Apart cs)
    (hd : d ∉ [' ', ',', ';', ')', '(', '.']) : ∀ c ∈ cs.head?, c ≠ d := by
  rintro c hc rfl
  exact hd (h c hc)

theorem Lexes.name (content : String) {k : List Char} (hk : Apart k) : Lexes [.name content] k := by
  have inner := unquote_doubled '"' content.toList (hk.ne (by decide))
  refine .of_first rfl rfl ?_
  show firstPiece '"' (Quoted.doubled '"' content.toList ++ ['"'] ++ k) = _
  rw [List.append_assoc, List.singleton_append, firstPiece, if_neg (by decide), if_pos rfl, inner]
  simp only [String.ofList_toList]

theorem firstPiece_text (content : String) {k : List Char} (hk : Apart k) :
    firstPiece '\'' (Quoted.doubled '\'' content.toList ++ ['\''] ++ k) = (.text content, k) := by
  have inner := unquote_doubled '\'' content.toList (hk.ne (by decide))
  rw [List.append_assoc, List.singleton_append, firstPiece, if_neg (by decide), if_neg (by decide),
    if_pos rfl, inner]
  simp only [String.ofList_toList]

theorem Lexes.text (content : String) {k : List Char} (hk : Apart k) : Lexes [.text content] k :=
  .of_first rfl rfl (firstPiece_text content hk)

theorem Hex.doubled_ofBytes (bytes : List UInt8) :
    Quoted.doubled '\'' (Hex.ofBytes bytes) = Hex.ofBytes bytes := by
  have digit : ∀ n : Fin 16, Hex.digit n ≠ '\'' := by decide
  induction bytes with
  | nil => rfl
  | cons b rest ih =>
    have hlt : b.toNat < 256 := b.toNat_lt
    have high : Hex.digit (b.toNat / 16) ≠ '\'' := digit ⟨b.toNat / 16, by omega⟩
    have low : Hex.digit (b.toNat % 16) ≠ '\'' := digit ⟨b.toNat % 16, by omega⟩
    show Quoted.doubled '\'' (Hex.digit (b.toNat / 16) :: Hex.digit (b.toNat % 16) ::
      Hex.ofBytes rest) = _
    rw [Quoted.doubled, if_neg high, Quoted.doubled, if_neg low, ih]
    rfl

theorem firstPiece_blob (bytes : List UInt8) {k : List Char} (hk : Apart k) :
    firstPiece 'X' ('\'' :: Hex.ofBytes bytes ++ ['\''] ++ k) = (.blob bytes, k) := by
  have inner := unquote_doubled '\'' (Hex.ofBytes bytes) (hk.ne (by decide))
  rw [Hex.doubled_ofBytes] at inner
  rw [List.cons_append, List.cons_append, List.append_assoc, List.singleton_append, firstPiece,
    if_neg (by decide), if_neg (by decide), if_neg (by decide), if_neg (by simp [beginsNumeral]),
    if_pos ⟨rfl, rfl⟩, List.tail_cons, inner]
  simp only [Hex.toBytes?_ofBytes]

theorem Lexes.blob (bytes : List UInt8) {k : List Char} (hk : Apart k) : Lexes [.blob bytes] k :=
  .of_first rfl rfl (firstPiece_blob bytes hk)

/-! ## Words -/

theorem isWord_iff {t : String} : isWord t = true ↔
    ∃ c rest, t.toList = c :: rest ∧ c.isDigit = false ∧ ∀ d ∈ c :: rest, isWordChar d = true := by
  unfold isWord
  split
  · next h => simp [h]
  · next c rest h =>
    rw [Bool.and_eq_true, List.all_eq_true, Bool.not_eq_true']
    constructor
    · rintro ⟨digit, all⟩
      exact ⟨c, rest, h, digit, all⟩
    · rintro ⟨c', rest', h', digit, all⟩
      rw [h] at h'
      cases h'
      exact ⟨digit, all⟩

theorem takeWhile_append_of_apart {cs : List Char} (all : ∀ c ∈ cs, isWordChar c = true)
    {k : List Char} (hk : Apart k) :
    (cs ++ k).takeWhile isWordChar = cs ∧ (cs ++ k).dropWhile isWordChar = k := by
  have stop : [' ', ',', ';', ')', '(', '.'].all (!isWordChar ·) = true := by decide
  induction cs with
  | nil =>
    cases k with
    | nil => exact ⟨rfl, rfl⟩
    | cons d k =>
      have hd := List.all_eq_true.mp stop d (hk d rfl)
      rw [Bool.not_eq_true'] at hd
      constructor
      · simp [hd]
      · simp [hd]
  | cons c rest ih =>
    obtain ⟨taken, left⟩ := ih fun d hd => all d (List.mem_cons_of_mem c hd)
    have hc := all c (List.mem_cons_self ..)
    simp only [List.cons_append, List.takeWhile_cons, List.dropWhile_cons, hc, if_true, taken, left,
      and_self]

theorem isWordChar_ne {c d : Char} (h : isWordChar c = true) (hd : isWordChar d = false) : c ≠ d := by
  rintro rfl
  rw [h] at hd
  exact Bool.noConfusion hd

/-- A word is read to its end: what may follow it is neither a word character nor a quote. -/
theorem firstPiece_word {c : Char} {rest k : List Char} (digit : c.isDigit = false)
    (all : ∀ d ∈ c :: rest, isWordChar d = true) (hk : Apart k) :
    firstPiece c (rest ++ k) = (.fixed (String.ofList (c :: rest)), k) := by
  have hc := all c (List.mem_cons_self ..)
  have hrest : ∀ d ∈ rest, isWordChar d = true := fun d hd => all d (List.mem_cons_of_mem c hd)
  have numeral : beginsNumeral c (rest ++ k) = false := by
    have := isWordChar_ne (d := '.') hc (by decide)
    simp [beginsNumeral, digit, this]
  have noQuote : (rest ++ k).head? ≠ some '\'' := by
    intro h
    cases rest with
    | nil => exact hk.ne (by decide) '\'' h rfl
    | cons d rest =>
      cases h
      exact absurd (hrest '\'' (List.mem_cons_self ..)) (by decide)
  obtain ⟨taken, left⟩ := takeWhile_append_of_apart hrest hk
  rw [firstPiece, if_neg (isWordChar_ne hc (by decide)), if_neg (isWordChar_ne hc (by decide)),
    if_neg (isWordChar_ne hc (by decide)), numeral, if_neg (by decide),
    if_neg (fun blob => noQuote blob.2), if_pos hc, taken, left]

theorem Lexes.word {t : String} (h : isWord t = true) {k : List Char} (hk : Apart k) :
    Lexes [.fixed t] k := by
  obtain ⟨c, rest, chars, digit, all⟩ := isWord_iff.mp h
  refine .of_first chars rfl ?_
  rw [firstPiece_word digit all hk, ← chars, String.ofList_toList]

/-! ## Marks -/

theorem firstPiece_open (k : List Char) : firstPiece '(' k = (.fixed "(", k) := rfl

theorem firstPiece_close (k : List Char) : firstPiece ')' k = (.fixed ")", k) := rfl

theorem firstPiece_comma (k : List Char) : firstPiece ',' k = (.fixed ",", k) := rfl

theorem firstPiece_semicolon (k : List Char) : firstPiece ';' k = (.fixed ";", k) := rfl

theorem firstPiece_plus (k : List Char) : firstPiece '+' k = (.fixed "+", k) := rfl

theorem firstPiece_tilde (k : List Char) : firstPiece '~' k = (.fixed "~", k) := rfl

/-- A minus sign is a mark of its own unless it begins a comment or an arrow. -/
theorem firstPiece_minus {c : Char} (sign : c ≠ '-') (arrow : c ≠ '>') (k : List Char) :
    firstPiece '-' (c :: k) = (.fixed "-", c :: k) := by
  have none : longMarks.find? (·.toList.isPrefixOf ('-' :: c :: k)) = none := by
    simp [longMarks, sign.symm, arrow.symm]
  rw [firstPiece, if_neg (by decide), if_neg (by decide), if_neg (by decide),
    if_neg (by simp [beginsNumeral]), if_neg (by simp), if_neg (by decide), leadingMark, none]
  rfl

/-- A dot is a mark of its own unless a digit follows. -/
theorem firstPiece_dot {c : Char} (h : c.isDigit = false) (k : List Char) :
    firstPiece '.' (c :: k) = (.fixed ".", c :: k) := by
  have none : longMarks.find? (·.toList.isPrefixOf ('.' :: c :: k)) = none := by
    simp [longMarks]
  rw [firstPiece, if_neg (by decide), if_neg (by decide), if_neg (by decide),
    if_neg (by simp [beginsNumeral, h]), if_neg (by simp), if_neg (by decide), leadingMark, none]
  rfl

theorem Lexes.mark {m : String} (hm : m ∈ operatorMarks) {k : List Char} (hk : Ends k) :
    Lexes [.fixed m] k := by
  simp only [operatorMarks, List.mem_cons, List.not_mem_nil, or_false] at hm
  cases k with
  | nil =>
    rcases hm with rfl | rfl | rfl | rfl | rfl | rfl | rfl | rfl | rfl | rfl | rfl | rfl | rfl |
      rfl | rfl | rfl | rfl | rfl
    all_goals exact .of_first rfl rfl rfl
  | cons c k =>
    have hc := hk c rfl
    simp only [List.mem_cons, List.not_mem_nil, or_false] at hc
    rcases hm with rfl | rfl | rfl | rfl | rfl | rfl | rfl | rfl | rfl | rfl | rfl | rfl | rfl |
      rfl | rfl | rfl | rfl | rfl
    all_goals
      rcases hc with rfl | rfl | rfl | rfl
      all_goals exact .of_first rfl rfl rfl

/-! ## Numerals -/

theorem numeralRun_append {cs : List Char} {afterMark : Bool}
    (h : Numeral.runsThrough afterMark cs = true) {k : List Char} (hk : Ends k) :
    numeralRun afterMark (cs ++ k) = (cs, k) := by
  have stop : ∀ b : Bool, [' ', ',', ';', ')'].all (!Numeral.goesOn b ·) = true := by decide
  induction cs generalizing afterMark with
  | nil =>
    cases k with
    | nil => rfl
    | cons c k =>
      have hc := List.all_eq_true.mp (stop afterMark) c (hk c rfl)
      rw [Bool.not_eq_true'] at hc
      rw [List.nil_append, numeralRun, hc, if_neg (by decide)]
  | cons c rest ih =>
    rw [Numeral.runsThrough, Bool.and_eq_true] at h
    rw [List.cons_append, numeralRun, if_pos h.1, ih h.2]

theorem firstPiece_numeral {c : Char} {rest k : List Char}
    (h : Numeral.isUnsigned (c :: rest) = true) (hk : Ends k) :
    firstPiece c (rest ++ k) = (.numeral (String.ofList (c :: rest)), k) := by
  have run := Numeral.runsThrough_of_isUnsigned h
  rw [Numeral.runsThrough, Bool.and_eq_true] at run
  obtain ⟨c', rest', heq, opening⟩ := Numeral.opening_of_isUnsigned h
  cases heq
  have begins : beginsNumeral c (rest ++ k) = true ∧ Numeral.isExponentMark c = false ∧
      c ≠ ' ' ∧ c ≠ '"' ∧ c ≠ '\'' := by
    rcases opening with digit | ⟨rfl, d, rest', rfl, digit⟩
    · refine ⟨by simp [beginsNumeral, digit], isDigit_not_mark digit, ?_, ?_, ?_⟩
      all_goals
        rintro rfl
        exact absurd digit (by decide)
    · exact ⟨by simp [beginsNumeral, digit], by decide, by decide, by decide, by decide⟩
  obtain ⟨begins, mark, space, double, single⟩ := begins
  rw [mark] at run
  rw [firstPiece, if_neg space, if_neg double, if_neg single, if_pos begins,
    numeralRun_append run.2 hk]

theorem plainNumeral_of_isUnsigned {digits : String}
    (h : Numeral.isUnsigned digits.toList = true) : plainNumeral digits = [.numeral digits] := by
  obtain ⟨c, rest, chars, minus, plus, -⟩ := head_of_isUnsigned h
  unfold plainNumeral
  split
  · next heq =>
    rw [chars] at heq
    cases heq
    exact absurd rfl minus
  · next heq =>
    rw [chars] at heq
    cases heq
    exact absurd rfl plus
  · rfl

theorem Lexes.unsigned {cs : List Char} (h : Numeral.isUnsigned cs = true) {k : List Char}
    (hk : Ends k) : lex (cs ++ k) = .numeral (String.ofList cs) :: lex k := by
  obtain ⟨c, rest, rfl, -⟩ := head_of_isUnsigned h
  exact lex_cons (firstPiece_numeral h hk)

theorem Lexes.numeral {digits : String} (h : Numeral.isWritten digits.toList = true)
    {k : List Char} (hk : Ends k) : Lexes [.numeral digits] k := by
  unfold Lexes
  rw [charsOf_cons, charsOf_nil, List.append_nil, plainOf_cons, plainOf_nil, List.append_nil]
  show lex (digits.toList ++ k) = plainNumeral digits ++ lex k
  rcases Numeral.sign_of_isWritten h with unsigned | ⟨sign, rest, chars, hsign, unsigned⟩
  · rw [Lexes.unsigned unsigned hk, String.ofList_toList, plainNumeral_of_isUnsigned unsigned]
    rfl
  · obtain ⟨c, tail, rfl, minus, -, arrow⟩ := head_of_isUnsigned unsigned
    rw [plainNumeral, chars]
    rcases hsign with rfl | rfl
    · rw [List.cons_append, List.cons_append, lex_cons (firstPiece_minus minus arrow _),
        ← List.cons_append, Lexes.unsigned unsigned hk]
      rfl
    · rw [List.cons_append, lex_cons (firstPiece_plus _), Lexes.unsigned unsigned hk]
      rfl

/-! ## Tidy text -/

/-- What a lexer must take for one piece: a word where the caller supplies text as it stands. -/
def Piece.VerbatimWord : Piece → Prop
  | .verbatim content => isWord content = true
  | _ => True

theorem Lexes.alone {p : Piece} (alone : p.standsAlone = true) (word : p.VerbatimWord)
    {k : List Char} (hk : Ends k) : Lexes [p] k := by
  cases p with
  | fixed t =>
    rw [Piece.standsAlone, Bool.or_eq_true, decide_eq_true_eq] at alone
    rcases alone with h | h
    · exact .word h hk.apart
    · exact .mark h hk
  | numeral digits => exact .numeral alone hk
  | name content => exact .name content hk.apart
  | text content => exact .text content hk.apart
  | blob bytes => exact .blob bytes hk.apart
  | verbatim content => exact Lexes.word word hk.apart
  | _ => exact Bool.noConfusion alone

theorem Lexes.label {p : Piece} (label : p.isLabel = true) {k : List Char} (hk : Apart k) :
    Lexes [p] k := by
  cases p with
  | fixed t => exact .word label hk
  | name content => exact .name content hk
  | _ => exact Bool.noConfusion label

theorem Piece.chars_of_isMember {p : Piece} (h : p.isMember = true) :
    ∃ c rest, p.chars = c :: rest ∧ c.isDigit = false := by
  cases p with
  | name content => exact ⟨_, _, rfl, by decide⟩
  | fixed t =>
    rw [beq_iff_eq.mp h]
    exact ⟨_, _, rfl, by decide⟩
  | _ => exact Bool.noConfusion h

/-- No operand begins with an arrow head. -/
theorem Piece.chars_of_opensOperand {p : Piece} (h : p.opensOperand = true) :
    ∃ c rest, p.chars = c :: rest ∧ c ≠ '>' := by
  cases p with
  | fixed t =>
    have openings : ∀ t ∈ operandOpenings, t.toList ≠ [] ∧ t.toList.head? ≠ some '>' := by decide
    obtain ⟨some, arrow⟩ := openings t (of_decide_eq_true h)
    obtain ⟨c, rest, chars⟩ := List.exists_cons_of_ne_nil some
    refine ⟨c, rest, chars, ?_⟩
    rintro rfl
    rw [chars] at arrow
    exact arrow rfl
  | numeral digits =>
    rcases Numeral.sign_of_isWritten h with unsigned | ⟨sign, rest, chars, hsign, -⟩
    · obtain ⟨c, rest, chars, -, -, arrow⟩ := head_of_isUnsigned unsigned
      exact ⟨c, rest, chars, arrow⟩
    · refine ⟨sign, rest, chars, ?_⟩
      rcases hsign with rfl | rfl <;> decide
  | name content => exact ⟨_, _, rfl, by decide⟩
  | text content => exact ⟨_, _, rfl, by decide⟩
  | blob bytes => exact ⟨_, _, rfl, by decide⟩
  | groupOpen => exact ⟨_, _, rfl, by decide⟩
  | _ => exact Bool.noConfusion h

/-- A sign before its operand is a mark of its own: it begins neither a comment nor an arrow. -/
theorem Lexes.prefixMark {m : String} (hm : m ∈ prefixMarks) {p : Piece} {a : List Piece}
    (opens : p.opensOperand = true) (apart : m = "~" ∨ leadsWithSign (p :: a) = false)
    (k : List Char) : Lexes [.fixed m] (charsOf (p :: a) ++ k) := by
  simp only [prefixMarks, List.mem_cons, List.not_mem_nil, or_false] at hm
  rcases hm with rfl | rfl | rfl
  · obtain ⟨c, rest, chars, arrow⟩ := Piece.chars_of_opensOperand opens
    have sign := apart.resolve_left (by decide)
    rw [leadsWithSign, charsOf_cons, chars] at sign
    have minus : c ≠ '-' := by
      rintro rfl
      exact absurd sign (by simp)
    have first := firstPiece_minus minus arrow (rest ++ charsOf a ++ k)
    rw [charsOf_cons, chars]
    exact .of_first rfl rfl first
  · exact .of_first rfl rfl (firstPiece_plus _)
  · exact .of_first rfl rfl (firstPiece_tilde _)

/-- The pieces of a tidy text are found again. -/
theorem Tidy.lexes {ps : List Piece} (h : Tidy ps) (words : ∀ p ∈ ps, p.VerbatimWord)
    {k : List Char} (hk : Ends k) : Lexes ps k := by
  have space (k : List Char) : Lexes [.space] k := .of_first rfl rfl rfl
  have comma (k : List Char) : Lexes [.fixed ","] k := .of_first rfl rfl (firstPiece_comma k)
  have semicolon (k : List Char) : Lexes [.fixed ";"] k :=
    .of_first rfl rfl (firstPiece_semicolon k)
  have opening (k : List Char) : Lexes [.fixed "("] k := .of_first rfl rfl (firstPiece_open k)
  have closing (k : List Char) : Lexes [.fixed ")"] k := .of_first rfl rfl (firstPiece_close k)
  have ends (c : Char) (hc : c ∈ [' ', ',', ';', ')']) (k : List Char) : Ends (c :: k) :=
    .cons hc k
  induction h generalizing k with
  | nil => exact .nil k
  | one alone => exact .alone alone (words _ (List.mem_singleton.mpr rfl)) hk
  | @spaced _ b _ _ ihl ihr =>
    have left := ihl (fun p hp => words p (by simp [hp])) (ends ' ' (by decide) (charsOf b ++ k))
    have right := ihr (fun p hp => words p (by simp [hp])) hk
    exact left.append (.cons (space _) right)
  | @listed _ b _ _ ihl ihr =>
    have left := ihl (fun p hp => words p (by simp [hp]))
      (ends ',' (by decide) (charsOf (.space :: b) ++ k))
    have right := ihr (fun p hp => words p (by simp [hp])) hk
    exact left.append (.cons (comma _) (.cons (space _) right))
  | @ended _ b _ _ ihl ihr =>
    have left := ihl (fun p hp => words p (by simp [hp]))
      (ends ';' (by decide) (charsOf (.space :: b) ++ k))
    have right := ihr (fun p hp => words p (by simp [hp])) hk
    exact left.append (.cons (semicolon _) (.cons (space _) right))
  | enclosed _ ih =>
    have inner := ih (fun p hp => words p (by simp [hp])) (ends ')' (by decide) k)
    exact .cons (opening _) (inner.append (closing k))
  | grouped _ ih =>
    have inner := ih (fun p hp => words p (by simp [hp])) (ends ')' (by decide) k)
    refine .cons (opening _) (Lexes.append (b := [.groupClose]) inner (closing k))
  | @called p a label _ ih =>
    have first := Lexes.label label
      (Apart.cons (c := '(') (by decide) (charsOf (a ++ [.fixed ")"]) ++ k))
    have inner := ih (fun p hp => words p (by simp [hp])) (ends ')' (by decide) k)
    exact .cons first (.cons (opening _) (inner.append (closing k)))
  | @dotted p q a label member _ ih =>
    obtain ⟨c, rest, chars, digit⟩ := Piece.chars_of_isMember member
    have first := Lexes.label label (Apart.cons (c := '.') (by decide) (charsOf (q :: a) ++ k))
    have dot : Lexes [.fixed "."] (charsOf (q :: a) ++ k) := by
      rw [charsOf_cons, chars]
      exact .of_first rfl rfl (firstPiece_dot digit _)
    have rest := ih (fun p hp => words p (List.mem_cons_of_mem _ (List.mem_cons_of_mem _ hp))) hk
    exact .cons first (.cons dot rest)
  | signed hm opens apart _ ih =>
    have rest := ih (fun p hp => words p (List.mem_cons_of_mem _ hp)) hk
    exact .cons (.prefixMark hm opens apart k) rest

/-- Reading the text of tidy pieces gives what a lexer sees of them. -/
theorem Tidy.lex_textOf {ps : List Piece} (h : Tidy ps) (words : ∀ p ∈ ps, p.VerbatimWord) :
    lex (textOf ps).toList = plainOf ps := by
  have whole := h.lexes words .nil
  unfold Lexes at whole
  rw [List.append_nil] at whole
  rw [textOf, String.toList_ofList, whole, lex, List.append_nil]

end SqliteSyntax
