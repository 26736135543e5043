import SqliteSyntax.Proofs.Pieces.Numerals
import SqliteSyntax.Proofs.Pieces.Tidy

/-! # Scanning for quotes

`scan` reads a text from left to right and knows two kinds of quotes and nothing else: a doubled quote
stays inside, a single one ends. A tidy text is scanned piece by piece (`Tidy.scans`). -/
namespace SqliteSyntax
set_option autoImplicit false

/-! ## The scanner -/

def isQuote (c : Char) : Bool := c == '"' || c == '\''

/-- A character outside of quotes, or a quoted token with its content decoded. -/
inductive Mark where
  | plain (c : Char)
  | quoted (delimiter : Char) (content : List Char)
deriving DecidableEq

inductive ScanState where
  | outside
  | inside (delimiter : Char) (content : List Char)
  /-- Just after a delimiter that ends the token or begins a doubled one. -/
  | closing (delimiter : Char) (content : List Char)

/-- The marks of a text, unless it ends inside a quote. -/
def scan : ScanState → List Char → Option (List Mark)
  | .outside, [] => some []
  | .outside, c :: rest =>
    if isQuote c then scan (.inside c []) rest else (scan .outside rest).map (.plain c :: ·)
  | .inside _ _, [] => none
  | .inside delimiter content, c :: rest =>
    if c = delimiter then scan (.closing delimiter content) rest
    else scan (.inside delimiter (content ++ [c])) rest
  | .closing delimiter content, [] => some [.quoted delimiter content]
  | .closing delimiter content, c :: rest =>
    if c = delimiter then scan (.inside delimiter (content ++ [c])) rest
    else
      (if isQuote c then scan (.inside c []) rest
        else (scan .outside rest).map (.plain c :: ·)).map (.quoted delimiter content :: ·)

/-- The quoted tokens. -/
def Mark.token? : Mark → Option (Char × List Char)
  | .plain _ => none
  | .quoted delimiter content => some (delimiter, content)

/-- The mark with a quoted content left out. -/
def Mark.blank : Mark → Mark
  | .plain c => .plain c
  | .quoted delimiter _ => .quoted delimiter []

/-- The text has no quote character. -/
def QuoteFree (cs : List Char) : Prop := ∀ c ∈ cs, isQuote c = false

instance (cs : List Char) : Decidable (QuoteFree cs) :=
  decidable_of_iff (cs.all (!isQuote ·) = true) (by simp [QuoteFree])

/-- The text does not begin with a quote character. -/
def Calm (cs : List Char) : Prop := ∀ c ∈ cs.head?, isQuote c = false

theorem Calm.nil : Calm [] := by
  intro c hc
  exact absurd hc (by simp)

theorem Calm.cons {c : Char} (h : isQuote c = false) (rest : List Char) : Calm (c :: rest) := by
  intro d hd
  rw [List.head?_cons, Option.mem_some_iff] at hd
  rw [← hd]
  exact h

/-! ## Scanning pieces -/

theorem scan_plain {cs : List Char} (h : QuoteFree cs) (k : List Char) :
    scan .outside (cs ++ k) = (scan .outside k).map (cs.map Mark.plain ++ ·) := by
  induction cs with
  | nil => simp
  | cons c rest ih =>
    have hc : isQuote c = false := h c (List.mem_cons_self ..)
    have hrest := ih fun d hd => h d (List.mem_cons_of_mem c hd)
    rw [List.cons_append, scan, hc, hrest, Option.map_map]
    rfl

theorem scan_doubled (delimiter : Char) (cs content k : List Char) :
    scan (.inside delimiter content) (Quoted.doubled delimiter cs ++ delimiter :: k) =
      scan (.closing delimiter (content ++ cs)) k := by
  induction cs generalizing content with
  | nil => simp [Quoted.doubled, scan]
  | cons c rest ih =>
    rw [Quoted.doubled]
    by_cases hc : c = delimiter
    · have := ih (content ++ [c])
      rw [if_pos hc, List.cons_append, List.cons_append, scan, if_pos hc, scan, if_pos hc, this,
        List.append_assoc]
      rfl
    · have := ih (content ++ [c])
      rw [if_neg hc, List.cons_append, scan, if_neg hc, this, List.append_assoc]
      rfl

theorem scan_closing {delimiter : Char} (hd : isQuote delimiter = true) (content : List Char)
    {k : List Char} (hk : Calm k) :
    scan (.closing delimiter content) k = (scan .outside k).map (.quoted delimiter content :: ·) := by
  cases k with
  | nil => rfl
  | cons c rest =>
    have hc : isQuote c = false := hk c (by simp)
    have hne : c ≠ delimiter := by
      rintro rfl
      rw [hd] at hc
      exact Bool.noConfusion hc
    show (if c = delimiter then _ else _) = _
    rw [if_neg hne]
    rfl

/-- A quoted token is read as one, with its content decoded, if no quote follows it. -/
theorem scan_encode {delimiter : Char} (hd : isQuote delimiter = true) (content : List Char)
    {k : List Char} (hk : Calm k) :
    scan .outside (Quoted.encode delimiter content ++ k) =
      (scan .outside k).map (.quoted delimiter content :: ·) := by
  have step := scan_doubled delimiter content [] k
  rw [List.nil_append] at step
  rw [Quoted.encode, List.append_assoc, List.cons_append, scan, if_pos hd, List.singleton_append,
    step]
  exact scan_closing hd content hk

/-! ## Scanning tidy text -/

/-- The marks of one piece. -/
def Piece.marks : Piece → List Mark
  | .name content => [.quoted '"' content.toList]
  | .text content => [.quoted '\'' content.toList]
  | .blob bytes => [.plain 'X', .quoted '\'' (Hex.ofBytes bytes)]
  | p => p.chars.map .plain

def marksOf (ps : List Piece) : List Mark := ps.flatMap Piece.marks

/-- Pieces whose only quotes are their own. -/
def Piece.QuotesOwn : Piece → Prop
  | .name _ | .text _ | .blob _ => True
  | p => QuoteFree p.chars

theorem Hex.quoteFree_ofBytes (bytes : List UInt8) : QuoteFree (Hex.ofBytes bytes) := by
  have digit : ∀ n : Fin 16, isQuote (Hex.digit n) = false := by decide
  intro c hc
  obtain ⟨b, -, hb⟩ := List.mem_flatMap.mp hc
  have hlt : b.toNat < 256 := b.toNat_lt
  rcases List.mem_cons.mp hb with rfl | hb
  · exact digit ⟨b.toNat / 16, by omega⟩
  · rw [List.mem_singleton.mp hb]
    exact digit ⟨b.toNat % 16, by omega⟩

theorem Quoted.doubled_of_quoteFree {cs : List Char} (h : QuoteFree cs) :
    Quoted.doubled '\'' cs = cs := by
  induction cs with
  | nil => rfl
  | cons c rest ih =>
    have hc : isQuote c = false := h c (List.mem_cons_self ..)
    have hne : c ≠ '\'' := by
      rintro rfl
      exact absurd hc (by decide)
    rw [Quoted.doubled, if_neg hne, ih fun d hd => h d (List.mem_cons_of_mem c hd)]

/-- The pieces are read as their marks in front of `k`. -/
def Scans (ps : List Piece) (k : List Char) : Prop :=
  scan .outside (charsOf ps ++ k) = (scan .outside k).map (marksOf ps ++ ·)

theorem Scans.append {a b : List Piece} {k : List Char} (ha : Scans a (charsOf b ++ k))
    (hb : Scans b k) : Scans (a ++ b) k := by
  unfold Scans at ha hb ⊢
  rw [charsOf_append, List.append_assoc, ha, hb, Option.map_map]
  congr 1
  funext marks
  rw [Function.comp_apply, marksOf, marksOf, marksOf, List.flatMap_append, List.append_assoc]

theorem Scans.nil (k : List Char) : Scans [] k := by
  unfold Scans
  cases h : scan .outside k <;> simp [marksOf, h]

theorem Scans.cons {p : Piece} {ps : List Piece} {k : List Char} (hp : Scans [p] (charsOf ps ++ k))
    (hps : Scans ps k) : Scans (p :: ps) k :=
  Scans.append (a := [p]) hp hps

/-- A piece that has no quotes need not be followed by a calm text. -/
theorem Scans.plain {p : Piece} (h : QuoteFree p.chars) (marks : p.marks = p.chars.map .plain)
    (k : List Char) : Scans [p] k := by
  unfold Scans
  rw [charsOf_cons, charsOf_nil, List.append_nil, marksOf, List.flatMap_singleton, marks]
  exact scan_plain h k

theorem Scans.piece {p : Piece} (hp : p.QuotesOwn) {k : List Char} (hk : Calm k) : Scans [p] k := by
  cases p with
  | name content =>
    unfold Scans
    simpa [marksOf, Piece.marks, Piece.chars] using scan_encode (by decide) content.toList hk
  | text content =>
    unfold Scans
    simpa [marksOf, Piece.marks, Piece.chars] using scan_encode (by decide) content.toList hk
  | blob bytes =>
    have token := @scan_encode '\'' (by decide) (Hex.ofBytes bytes) k hk
    rw [Quoted.encode, Quoted.doubled_of_quoteFree (Hex.quoteFree_ofBytes bytes)] at token
    have quoteFree : QuoteFree ['X'] := by decide
    have letter := scan_plain quoteFree ('\'' :: Hex.ofBytes bytes ++ ['\''] ++ k)
    rw [token, Option.map_map] at letter
    unfold Scans
    rw [charsOf_cons, charsOf_nil, List.append_nil]
    exact letter
  | space => exact .plain hp rfl k
  | fixed t => exact .plain hp rfl k
  | numeral t => exact .plain hp rfl k
  | verbatim t => exact .plain hp rfl k
  | groupOpen => exact .plain hp rfl k
  | groupClose => exact .plain hp rfl k

/-- A tidy text is read piece by piece: what stands next to a quoted token is no quote. -/
theorem Tidy.scans {ps : List Piece} (h : Tidy ps) (own : ∀ p ∈ ps, p.QuotesOwn)
    {k : List Char} (hk : Calm k) : Scans ps k := by
  have space (k : List Char) : Scans [.space] k := .plain (by decide) rfl k
  have mark {t : String} (h : QuoteFree t.toList) (k : List Char) : Scans [.fixed t] k :=
    .plain (p := .fixed t) h rfl k
  have apart (ps : List Piece) (k : List Char) : Calm (charsOf (.space :: ps) ++ k) :=
    .cons (by decide) _
  have comma (ps : List Piece) (k : List Char) : Calm (charsOf (.fixed "," :: ps) ++ k) :=
    .cons (by decide) _
  have semicolon (ps : List Piece) (k : List Char) : Calm (charsOf (.fixed ";" :: ps) ++ k) :=
    .cons (by decide) _
  have opening (ps : List Piece) (k : List Char) : Calm (charsOf (.fixed "(" :: ps) ++ k) :=
    .cons (by decide) _
  have closing (ps : List Piece) (k : List Char) : Calm (charsOf (.fixed ")" :: ps) ++ k) :=
    .cons (by decide) _
  have groupClosing (k : List Char) : Calm (charsOf [.groupClose] ++ k) := .cons (by decide) _
  have dot (ps : List Piece) (k : List Char) : Calm (charsOf (.fixed "." :: ps) ++ k) :=
    .cons (by decide) _
  induction h generalizing k with
  | nil => exact .nil k
  | one _ => exact .piece (own _ (List.mem_singleton.mpr rfl)) hk
  | @spaced _ b _ _ ihl ihr =>
    have left := ihl (fun p hp => own p (by simp [hp])) (apart b k)
    have right := ihr (fun p hp => own p (by simp [hp])) hk
    exact left.append (.cons (space _) right)
  | @listed _ b _ _ ihl ihr =>
    have left := ihl (fun p hp => own p (by simp [hp])) (comma (.space :: b) k)
    have right := ihr (fun p hp => own p (by simp [hp])) hk
    exact left.append (.cons (mark (by decide) _) (.cons (space _) right))
  | @ended _ b _ _ ihl ihr =>
    have left := ihl (fun p hp => own p (by simp [hp])) (semicolon (.space :: b) k)
    have right := ihr (fun p hp => own p (by simp [hp])) hk
    exact left.append (.cons (mark (by decide) _) (.cons (space _) right))
  | enclosed _ ih =>
    have inner := ih (fun p hp => own p (by simp [hp])) (closing [] k)
    exact .cons (mark (by decide) _) (inner.append (mark (by decide) _))
  | grouped _ ih =>
    have inner := ih (fun p hp => own p (by simp [hp])) (groupClosing k)
    exact .cons (.plain (by decide) rfl _) (inner.append (.plain (by decide) rfl _))
  | @called _ a _ _ ih =>
    have label := Scans.piece (own _ (List.mem_cons_self ..)) (opening (a ++ [.fixed ")"]) k)
    have inner := ih (fun p hp => own p (by simp [hp])) (closing [] k)
    exact .cons label (.cons (mark (by decide) _) (inner.append (mark (by decide) _)))
  | @dotted _ q a _ _ _ ih =>
    have label := Scans.piece (own _ (List.mem_cons_self ..)) (dot (q :: a) k)
    have rest := ih (fun p hp => own p (List.mem_cons_of_mem _ (List.mem_cons_of_mem _ hp))) hk
    exact .cons label (.cons (mark (by decide) _) rest)
  | @signed m _ _ hm _ _ _ ih =>
    have signs : ∀ m ∈ prefixMarks, QuoteFree m.toList := by decide
    have rest := ih (fun p hp => own p (List.mem_cons_of_mem _ hp)) hk
    exact .cons (mark (signs m hm) _) rest

theorem isQuote_cases {c : Char} (h : isQuote c = true) : c = '"' ∨ c = '\'' := by
  rw [isQuote, Bool.or_eq_true, beq_iff_eq, beq_iff_eq] at h
  exact h

theorem not_isQuote_of_isWordChar {c : Char} (h : isWordChar c = true) : isQuote c = false := by
  refine Bool.eq_false_iff.mpr fun hq => ?_
  rcases isQuote_cases hq with rfl | rfl <;> exact absurd h (by decide)

theorem not_isQuote_of_isNumeralChar {c : Char} (h : Numeral.isNumeralChar c = true) :
    isQuote c = false := by
  refine Bool.eq_false_iff.mpr fun hq => ?_
  rcases isQuote_cases hq with rfl | rfl <;> exact absurd h (by decide)

theorem quoteFree_of_isWord {t : String} (h : isWord t = true) : QuoteFree t.toList := by
  intro c hc
  unfold isWord at h
  split at h
  · exact Bool.noConfusion h
  · rename_i first rest chars
    rw [Bool.and_eq_true, List.all_eq_true] at h
    exact not_isQuote_of_isWordChar (h.2 c (chars ▸ hc))

/-- In a tidy text only what is given as it stands can bring in quotes of its own. -/
theorem Tidy.quotesOwn {ps : List Piece} (h : Tidy ps)
    (free : ∀ v, Piece.verbatim v ∈ ps → QuoteFree v.toList) : ∀ p ∈ ps, p.QuotesOwn := by
  have all : ∀ p ∈ ps, (∀ v, p = .verbatim v → QuoteFree v.toList) → p.QuotesOwn := by
    refine h.forall_mem (fun p hp own => ?_) (fun _ => ?_) (fun _ => ?_) (fun _ => ?_) fun t ht _ => ?_
    · cases p with
      | fixed t =>
        rw [Piece.standsAlone, Bool.or_eq_true] at hp
        rcases hp with hw | ho
        · exact quoteFree_of_isWord hw
        · have marks : ∀ t ∈ operatorMarks, QuoteFree t.toList := by decide
          exact marks t (of_decide_eq_true ho)
      | numeral digits =>
        intro c hc
        exact not_isQuote_of_isNumeralChar (Numeral.isNumeralChar_of_isWritten hp c hc)
      | verbatim v => exact own v rfl
      | _ => trivial
    · show QuoteFree [' ']
      decide
    · show QuoteFree ['(']
      decide
    · show QuoteFree [')']
      decide
    · have marks : ∀ t ∈ punctuation, QuoteFree t.toList := by decide
      exact marks t ht
  exact fun p hp => all p hp fun v hv => free v (hv ▸ hp)

end SqliteSyntax
