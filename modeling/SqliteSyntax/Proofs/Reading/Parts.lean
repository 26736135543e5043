import SqliteSyntax.Piece

/-! # Readers of parts

A reader takes pieces from the front of a text and gives a value and what follows. `Reads` says which
value it gives for some pieces, whatever follows of which a condition holds; most conditions list the
words and marks with which the text may go on (`Begins`). The readers here are for the parts that texts
are put together from: fixed words, optional clauses, parentheses, lists and phrases. -/
namespace SqliteSyntax
set_option autoImplicit false

abbrev Reader (α : Type) : Type := StateT (List Piece) Option α

variable {α β γ : Type}

/-- The reader takes these pieces and gives the value, if what follows meets the condition. -/
def Reads (read : Reader α) (ok : List Piece → Prop) (ps : List Piece) (a : α) : Prop :=
  ∀ k, ok k → read (ps ++ k) = some (a, k)

theorem Reads.weaken {read : Reader α} {ok ok' : List Piece → Prop} {ps : List Piece} {a : α}
    (h : Reads read ok ps a) (sub : ∀ k, ok' k → ok k) : Reads read ok' ps a :=
  fun k hk => h k (sub k hk)

theorem Reads.bind {read : Reader α} {next : α → Reader β} {ok ok' : List Piece → Prop}
    {ps qs : List Piece} {a : α} {b : β} (first : Reads read ok' ps a)
    (goesOn : ∀ k, ok k → ok' (qs ++ k)) (second : Reads (next a) ok qs b) :
    Reads (read >>= next) ok (ps ++ qs) b := by
  intro k hk
  rw [List.append_assoc]
  show (read (ps ++ (qs ++ k))).bind (fun r => next r.1 r.2) = _
  rw [first _ (goesOn k hk)]
  exact second k hk

/-- The last part of a text, and what is made of it. -/
theorem Reads.last {read : Reader α} {ok : List Piece → Prop} {ps : List Piece} {a : α}
    (h : Reads read ok ps a) (f : α → β) : Reads (read >>= fun a => Pure.pure (f a)) ok ps (f a) := by
  intro k hk
  show (read (ps ++ k)).bind (fun r => some (f r.1, r.2)) = _
  rw [h k hk]
  rfl

theorem Reads.map {read : Reader α} {ok : List Piece → Prop} {ps : List Piece} {a : α} (f : α → β)
    (h : Reads read ok ps a) : Reads (f <$> read) ok ps (f a) := by
  intro k hk
  show (read (ps ++ k)).bind (fun r => some (f r.1, r.2)) = _
  rw [h k hk]
  rfl

/-! ## Fixed pieces -/

/-- What follows pieces that must stand here. -/
def after : List Piece → List Piece → Option (List Piece)
  | [], ps => some ps
  | _ :: _, [] => none
  | p :: head, q :: ps => if p = q then after head ps else none

@[simp] theorem after_append (head k : List Piece) : after head (head ++ k) = some k := by
  induction head with
  | nil => rfl
  | cons p head ih => rw [List.cons_append, after, if_pos rfl, ih]

theorem after_ne {p q : Piece} (h : p ≠ q) (head k : List Piece) :
    after (p :: head) (q :: k) = none := by
  rw [after, if_neg h]

/-- The pieces that must stand here. -/
def Reader.fixed (head : List Piece) : Reader Unit := fun ps =>
  (after head ps).map fun rest => ((), rest)

theorem Reads.fixed (head : List Piece) (ok : List Piece → Prop) :
    Reads (Reader.fixed head) ok head () := by
  intro k _
  rw [Reader.fixed, after_append]
  rfl

/-- A text after pieces that must stand in front of it. -/
theorem Reads.headed {next : Reader β} {ok : List Piece → Prop} {ps : List Piece} {b : β}
    (head : List Piece) (h : Reads next ok ps b) :
    Reads (Reader.fixed head >>= fun _ => next) ok (head ++ ps) b :=
  .bind (.fixed head fun _ => True) (fun _ _ => trivial) h

/-- A phrase between two spaces. -/
def lead (words : List String) : List Piece := .space :: phrase words ++ [.space]

theorem phrase_cons (word : String) (words : List String) :
    ∃ rest, phrase (word :: words) = .fixed word :: rest := by
  cases words with
  | nil => exact ⟨[], rfl⟩
  | cons next words => exact ⟨.space :: phrase (next :: words), rfl⟩

/-! ## What follows -/

/-- The text is at its end, or goes on with one of the words or marks, after a space or without. -/
inductive Begins (words : List String) : List Piece → Prop where
  | ending : Begins words []
  | mark {word : String} (h : word ∈ words) (rest : List Piece) : Begins words (.fixed word :: rest)
  | word {word : String} (h : word ∈ words) (rest : List Piece) :
    Begins words (.space :: .fixed word :: rest)

namespace Begins
variable {words : List String} {k : List Piece}

theorem mono {words' : List String} (h : Begins words k) (sub : words ⊆ words') :
    Begins words' k := by
  cases h with
  | ending => exact .ending
  | mark h rest => exact .mark (sub h) rest
  | word h rest => exact .word (sub h) rest

theorem after_mark (h : Begins words k) {word : String} (hw : word ∉ words) (head : List Piece) :
    after (.fixed word :: head) k = none := by
  cases h with
  | ending => rfl
  | mark h rest =>
    refine after_ne (fun heq => hw ?_) head rest
    rwa [Piece.fixed.inj heq]
  | word h rest => exact after_ne (by simp) head _

theorem after_word (h : Begins words k) {word : String} (hw : word ∉ words) (head : List Piece) :
    after (.space :: .fixed word :: head) k = none := by
  cases h with
  | ending => rfl
  | mark h rest => exact after_ne (by simp) _ rest
  | word h rest =>
    rw [after, if_pos rfl]
    refine after_ne (fun heq => hw ?_) head rest
    rwa [Piece.fixed.inj heq]

theorem after_phrase (h : Begins words k) {word : String} (hw : word ∉ words) (more : List String) :
    after (.space :: SqliteSyntax.phrase (word :: more)) k = none := by
  obtain ⟨rest, heq⟩ := phrase_cons word more
  rw [heq]
  exact h.after_word hw _

theorem after_lead (h : Begins words k) {word : String} (hw : word ∉ words) (more : List String) :
    after (lead (word :: more)) k = none := by
  obtain ⟨rest, heq⟩ := phrase_cons word more
  rw [lead, heq]
  exact h.after_word hw _

theorem phrase (word : String) (more : List String) (rest : List Piece) :
    Begins (word :: words) (.space :: SqliteSyntax.phrase (word :: more) ++ rest) := by
  obtain ⟨tail, heq⟩ := phrase_cons word more
  rw [heq]
  exact .word (List.mem_cons_self ..) _

theorem clause (h : Begins words k) (word : String) (more : List String)
    (body : Option (List Piece)) :
    Begins (word :: words) (SqliteSyntax.clause (word :: more) body ++ k) := by
  cases body with
  | none => exact h.mono (List.subset_cons_self ..)
  | some ps =>
    have text : SqliteSyntax.clause (word :: more) (some ps) ++ k =
        .space :: SqliteSyntax.phrase (word :: more) ++ (.space :: ps ++ k) := by
      simp [SqliteSyntax.clause, spaced]
    rw [text]
    exact phrase word more _

end Begins

/-- In front of what meets the condition, the pieces begin with one of the words or marks, or they are
empty and what follows does. -/
def Leads (ok : List Piece → Prop) (words : List String) (ps : List Piece) : Prop :=
  ∀ k, ok k → Begins words (ps ++ k)

namespace Leads
variable {ok : List Piece → Prop} {words : List String} {ps : List Piece}

theorem of_mono {words' : List String} (sub : words ⊆ words') : Leads (Begins words) words' [] :=
  fun _ hk => hk.mono sub

theorem clause (h : Leads ok words ps) (word : String) (more : List String)
    (body : Option (List Piece)) :
    Leads ok (word :: words) (SqliteSyntax.clause (word :: more) body ++ ps) := by
  intro k hk
  rw [List.append_assoc]
  exact (h k hk).clause word more body

theorem lastClause (words : List String) (word : String) (more : List String)
    (body : Option (List Piece)) :
    Leads (Begins words) (word :: words) (SqliteSyntax.clause (word :: more) body) :=
  fun _ hk => hk.clause word more body

end Leads

/-! ## Optional parts -/

namespace Reader

/-- What follows the head, if the head stands here. -/
def optionally (head : List Piece) (read : Reader α) : Reader (Option α) := fun ps =>
  match after head ps with
  | some rest => (read rest).map fun r => (some r.1, r.2)
  | none => some (none, ps)

/-- Whether the head stands here. -/
def flag (head : List Piece) : Reader Bool := fun ps =>
  match after head ps with
  | some rest => some (true, rest)
  | none => some (false, ps)

end Reader

theorem Reads.optionally {read : Reader α} {ok : List Piece → Prop} {ps : List Piece} {a : α}
    (h : Reads read ok ps a) (head : List Piece) :
    Reads (Reader.optionally head read) ok (head ++ ps) (some a) := by
  intro k hk
  rw [Reader.optionally, List.append_assoc, after_append]
  show (read (ps ++ k)).map _ = _
  rw [h k hk]
  rfl

theorem Reader.optionally_none {read : Reader α} {head k : List Piece} (h : after head k = none) :
    Reader.optionally head read k = some (none, k) := by
  rw [Reader.optionally, h]

theorem clause_some (words : List String) (body : List Piece) :
    clause words (some body) = lead words ++ body := by
  simp [clause, spaced, lead]

theorem Reads.clause {read : Reader α} {ends : List String} {shown : β → List Piece} {value : β → α}
    {item : Option β} {word : String} (h : ∀ b ∈ item, Reads read (Begins ends) (shown b) (value b))
    (absent : word ∉ ends) (more : List String) :
    Reads (Reader.optionally (lead (word :: more)) read) (Begins ends)
      (clause (word :: more) (item.map shown)) (item.map value) := by
  cases item with
  | none =>
    intro k hk
    exact Reader.optionally_none (hk.after_lead absent more)
  | some b =>
    rw [Option.map_some, clause_some, Option.map_some]
    exact (h b rfl).optionally _

theorem Reader.flag_onlyIf {ok : List Piece → Prop} {head : List Piece}
    (absent : ∀ k, ok k → after head k = none) (condition : Bool) :
    Reads (Reader.flag head) ok (onlyIf condition head) condition := by
  intro k hk
  cases condition with
  | false =>
    show Reader.flag head k = _
    rw [Reader.flag, absent k hk]
  | true =>
    show Reader.flag head (head ++ k) = _
    rw [Reader.flag, after_append]

/-! ## Parentheses -/

/-- A part and the parenthesis that closes behind it. -/
def Reader.closed (read : Reader α) : Reader α := do
  let a ← read
  Reader.fixed [.fixed ")"]
  return a

/-- A part and the parentheses around it. -/
def Reader.bracketed (read : Reader α) : Reader α := do
  Reader.fixed [.fixed "("]
  Reader.closed read

theorem Reads.closed {read : Reader α} {ok : List Piece → Prop} {ps : List Piece} {a : α}
    (h : Reads read ok ps a) (closes : ∀ k, ok (.fixed ")" :: k)) (any : List Piece → Prop) :
    Reads (Reader.closed read) any (ps ++ [.fixed ")"]) a :=
  .bind h (fun k _ => closes k) ((Reads.fixed [.fixed ")"] any).last fun _ => a)

theorem Reads.bracketed {read : Reader α} {ok : List Piece → Prop} {ps : List Piece} {a : α}
    (h : Reads read ok ps a) (closes : ∀ k, ok (.fixed ")" :: k)) (any : List Piece → Prop) :
    Reads (Reader.bracketed read) any (parenthesized ps) a :=
  .headed [.fixed "("] (h.closed closes any)

/-! ## Repeated parts -/

namespace Reader

/-- Parts as long as they are found, at most so many. -/
def upTo (read : Reader α) : Nat → Reader (List α)
  | 0, ps => some ([], ps)
  | n + 1, ps =>
    match read ps with
    | some (a, rest) => (upTo read n rest).map fun r => (a :: r.1, r.2)
    | none => some ([], ps)

/-- Parts as long as they are found. -/
def many (read : Reader α) : Reader (List α) := fun ps => upTo read ps.length ps

/-- A part after a comma. -/
def listed (read : Reader α) : Reader α := do
  fixed [.fixed ",", .space]
  read

/-- Parts with commas between, at least one. -/
def listOf (read : Reader α) : Reader (List α) := do
  let a ← read
  let rest ← many (listed read)
  return a :: rest

/-- Parts with commas between, up to a closing parenthesis. -/
def items (read : Reader α) : Reader (List α) := fun ps =>
  match after [.fixed ")"] ps with
  | some _ => some ([], ps)
  | none => listOf read ps

end Reader

section Repeated
variable {read : Reader α} {ok between : List Piece → Prop} {shown : β → List Piece} {value : β → α}
  {items : List β}

theorem Reads.upTo (h : ∀ b ∈ items, Reads read between (shown b) (value b))
    (next : ∀ b ∈ items, ∀ k, between (shown b ++ k)) (last : ∀ k, ok k → between k)
    (stop : ∀ k, ok k → read k = none) {n : Nat} (hn : items.length ≤ n) :
    Reads (Reader.upTo read n) ok (items.flatMap shown) (items.map value) := by
  intro k hk
  induction items generalizing n with
  | nil =>
    cases n with
    | zero => rfl
    | succ n =>
      show Reader.upTo read (n + 1) k = _
      rw [Reader.upTo, stop k hk]
      rfl
  | cons b rest ih =>
    obtain ⟨n, rfl⟩ : ∃ m, n = m + 1 := ⟨n - 1, by simp only [List.length_cons] at hn; omega⟩
    have goesOn : between (rest.flatMap shown ++ k) := by
      cases rest with
      | nil => exact last k hk
      | cons b' rest =>
        rw [List.flatMap_cons, List.append_assoc]
        exact next b' (by simp) _
    have tail := ih (fun b hb => h b (List.mem_cons_of_mem _ hb))
      (fun b hb => next b (List.mem_cons_of_mem _ hb)) (n := n) (by simpa using hn)
    rw [List.flatMap_cons, List.append_assoc, Reader.upTo, h b (List.mem_cons_self ..) _ goesOn]
    show (Reader.upTo read n (rest.flatMap shown ++ k)).map _ = _
    rw [tail]
    rfl

theorem length_le_flatMap (ne : ∀ b ∈ items, shown b ≠ []) :
    items.length ≤ (items.flatMap shown).length := by
  induction items with
  | nil => exact Nat.le_refl 0
  | cons b rest ih =>
    have first : 0 < (shown b).length := List.length_pos_iff.mpr (ne b (List.mem_cons_self ..))
    have tail := ih fun b hb => ne b (List.mem_cons_of_mem _ hb)
    rw [List.flatMap_cons, List.length_append, List.length_cons]
    omega

theorem Reads.many (h : ∀ b ∈ items, Reads read between (shown b) (value b))
    (ne : ∀ b ∈ items, shown b ≠ []) (next : ∀ b ∈ items, ∀ k, between (shown b ++ k))
    (last : ∀ k, ok k → between k) (stop : ∀ k, ok k → read k = none) :
    Reads (Reader.many read) ok (items.flatMap shown) (items.map value) := by
  intro k hk
  refine Reads.upTo h next last stop ?_ k hk
  rw [List.length_append]
  exact Nat.le_add_right_of_le (length_le_flatMap ne)

end Repeated

/-! ## Lists -/

theorem commaSeparated_cons (part : List Piece) (parts : List (List Piece)) :
    commaSeparated (part :: parts) =
      part ++ parts.flatMap fun ps => [.fixed ",", .space] ++ ps := by
  induction parts generalizing part with
  | nil => simp [commaSeparated, separated]
  | cons next rest ih =>
    have step : commaSeparated (part :: next :: rest) =
        part ++ [.fixed ",", .space] ++ commaSeparated (next :: rest) := rfl
    rw [step, ih, List.flatMap_cons, List.append_assoc, List.append_assoc]

section Lists
variable {read : Reader α} {ok between : List Piece → Prop} {shown : β → List Piece} {value : β → α}
  {bs : List β}

theorem Reads.listed {b : β} (h : Reads read ok (shown b) (value b)) :
    Reads (Reader.listed read) ok ([.fixed ",", .space] ++ shown b) (value b) :=
  .headed _ h

/-- A list of parts is read if each is read before a comma and before what follows the list. -/
theorem Reads.list (ne : bs ≠ []) (h : ∀ b ∈ bs, Reads read between (shown b) (value b))
    (comma : ∀ k, between (.fixed "," :: k)) (last : ∀ k, ok k → between k)
    (stop : ∀ k, ok k → Reader.listed read k = none) :
    Reads (Reader.listOf read) ok (commaSeparated (bs.map shown)) (bs.map value) := by
  obtain ⟨b, rest, rfl⟩ := List.exists_cons_of_ne_nil ne
  have tail : Reads (Reader.many (Reader.listed read)) ok
      (rest.flatMap fun b => [.fixed ",", .space] ++ shown b) (rest.map value) :=
    .many (fun b hb => (h b (List.mem_cons_of_mem _ hb)).listed) (fun _ _ => by simp)
      (fun _ _ k => comma _) last stop
  have goesOn : ∀ k, ok k → between ((rest.flatMap fun b => [.fixed ",", .space] ++ shown b) ++ k) := by
    intro k hk
    cases rest with
    | nil => exact last k hk
    | cons b' rest => exact comma _
  rw [List.map_cons, commaSeparated_cons, List.flatMap_map]
  exact .bind (h b (List.mem_cons_self ..)) goesOn (tail.last fun items => value b :: items)

theorem Begins.listed {ends : List String} (absent : "," ∉ ends) {k : List Piece}
    (h : Begins ends k) : Reader.listed read k = none := by
  show (Reader.fixed [.fixed ",", .space] k).bind _ = _
  rw [Reader.fixed, h.after_mark absent]
  rfl

/-- The same where what follows is told by its first word. -/
theorem Reads.listOf {ends : List String} (ne : bs ≠ [])
    (h : ∀ b ∈ bs, Reads read (Begins ("," :: ends)) (shown b) (value b)) (absent : "," ∉ ends) :
    Reads (Reader.listOf read) (Begins ends) (commaSeparated (bs.map shown)) (bs.map value) :=
  .list ne h (fun k => .mark (List.mem_cons_self ..) k) (fun _ hk => hk.mono (List.subset_cons_self ..))
    fun _ hk => hk.listed absent

theorem Reads.items (h : ∀ b ∈ bs, Reads read (Begins [",", ")"]) (shown b) (value b))
    (opens : ∀ b ∈ bs, ∀ k, after [.fixed ")"] (shown b ++ k) = none) (any : List Piece → Prop) :
    Reads (Reader.bracketed (Reader.items read)) any
      (parenthesized (commaSeparated (bs.map shown))) (bs.map value) := by
  cases bs with
  | nil =>
    have none : Reads (Reader.items read) (fun k => ∃ rest, k = .fixed ")" :: rest) [] [] := by
      rintro k ⟨rest, rfl⟩
      rfl
    exact none.bracketed (fun k => ⟨k, rfl⟩) any
  | cons b rest =>
    have some : Reads (Reader.items read) (Begins [")"]) (commaSeparated ((b :: rest).map shown))
        ((b :: rest).map value) := by
      intro k hk
      have opening : after [.fixed ")"] (commaSeparated ((b :: rest).map shown) ++ k) = none := by
        rw [List.map_cons, commaSeparated_cons, List.append_assoc]
        exact opens b (List.mem_cons_self ..) _
      rw [Reader.items, opening]
      exact Reads.listOf (List.cons_ne_nil b rest) h (by decide) k hk
    exact some.bracketed (fun k => .mark (List.mem_singleton.mpr rfl) k) any

end Lists

end SqliteSyntax
