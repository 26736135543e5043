import SqliteSyntax.Expr.Render
import SqliteSyntax.Proofs.Reading.Parts

/-! # Phrases and names

A phrase out of a fixed set is read by trying all of them. If no phrase of the set begins another, the
one that stands in the text is found (`Reads.choose`). -/
namespace SqliteSyntax
set_option autoImplicit false

/-! ## Phrases -/

theorem findSome?_eq_of_unique {α β : Type} {f : α → Option β} {a : α} {b : β} {items : List α}
    (mem : a ∈ items) (found : f a = some b) (unique : ∀ c ∈ items, f c ≠ none → c = a) :
    items.findSome? f = some b := by
  induction items with
  | nil => exact absurd mem List.not_mem_nil
  | cons c rest ih =>
    rw [List.findSome?_cons]
    cases hc : f c with
    | some d =>
      have same := unique c (List.mem_cons_self ..) (by rw [hc]; simp)
      rw [← found, ← same, hc]
    | none =>
      have tail : a ∈ rest := by
        rcases List.mem_cons.mp mem with rfl | h
        · rw [found] at hc
          cases hc
        · exact h
      exact ih tail fun c hc => unique c (List.mem_cons_of_mem _ hc)

section Phrases
variable {α : Type} [Phrase α]

variable (α) in
/-- The phrase of the type that stands here; of two that do, the one listed later. -/
def Reader.choose : Reader α := fun ps =>
  (Phrase.all : List α).reverse.findSome? fun a =>
    (after (Phrase.pieces a) ps).map fun rest => (a, rest)

variable (α) in
/-- A space and a phrase of the type, if they stand here. -/
def Reader.choice : Reader (Option α) := fun ps =>
  match (after [.space] ps).bind (Reader.choose α) with
  | some (a, rest) => some (some a, rest)
  | none => some (none, ps)

variable (α) in
/-- The words with which the phrases of the type begin. -/
def Phrase.starts : List String := (Phrase.all : List α).filterMap fun a => (Phrase.words a).head?

variable (α) in
/-- Every phrase has a word, and no phrase begins another. -/
structure Phrase.Distinct : Prop where
  nonempty : ∀ a ∈ (Phrase.all : List α), Phrase.words a ≠ []
  apart : ∀ a ∈ (Phrase.all : List α), ∀ b ∈ (Phrase.all : List α),
    Phrase.words a <+: Phrase.words b → a = b

/-- Two phrases that begin the same text begin one another. -/
theorem prefix_of_after_phrase {words words' : List String} {k rest : List Piece}
    (h : after (phrase words) (phrase words' ++ k) = some rest) :
    words <+: words' ∨ words' <+: words := by
  induction words generalizing words' with
  | nil => exact Or.inl (List.nil_prefix)
  | cons word more ih =>
    cases words' with
    | nil => exact Or.inr (List.nil_prefix)
    | cons word' more' =>
      obtain ⟨tail, heq⟩ := phrase_cons word more
      obtain ⟨tail', heq'⟩ := phrase_cons word' more'
      have same : word = word' := by
        rw [heq, heq', List.cons_append, after] at h
        split at h
        · next first => exact Piece.fixed.inj first
        · cases h
      subst same
      cases more with
      | nil => exact Or.inl (List.prefix_append [word] more')
      | cons next more =>
        cases more' with
        | nil => exact Or.inr (List.prefix_append [word] (next :: more))
        | cons next' more' =>
          have inner : after (phrase (next :: more)) (phrase (next' :: more') ++ k) = some rest := by
            have step : after (phrase (word :: next :: more)) (phrase (word :: next' :: more') ++ k) =
                after (phrase (next :: more)) (phrase (next' :: more') ++ k) := by
              show (if _ then (if _ then _ else _) else _) = _
              rw [if_pos rfl, if_pos rfl]
              rfl
            rw [← step]
            exact h
          rcases ih inner with hp | hp
          · exact Or.inl (List.prefix_cons_inj word |>.mpr hp)
          · exact Or.inr (List.prefix_cons_inj word |>.mpr hp)

/-- The phrase that stands in the text is found. -/
theorem Reads.choose (h : Phrase.Distinct α) (ok : List Piece → Prop) (a : α) :
    Reads (Reader.choose α) ok (Phrase.pieces a) a := by
  intro k _
  refine findSome?_eq_of_unique (List.mem_reverse.mpr (Phrase.mem_all a)) ?_ fun b _ hb => ?_
  · rw [after_append]
    rfl
  · cases hr : after (Phrase.pieces b) (Phrase.pieces a ++ k) with
    | none =>
      rw [hr] at hb
      exact absurd rfl hb
    | some rest =>
      rcases prefix_of_after_phrase hr with hp | hp
      · exact h.apart b (Phrase.mem_all b) a (Phrase.mem_all a) hp
      · exact (h.apart a (Phrase.mem_all a) b (Phrase.mem_all b) hp).symm

theorem Phrase.mem_starts {a : α} {word : String} {more : List String}
    (h : Phrase.words a = word :: more) : word ∈ Phrase.starts α :=
  List.mem_filterMap.mpr ⟨a, Phrase.mem_all a, by rw [h, List.head?_cons]⟩

theorem Reader.choose_eq_none {ends : List String} {k : List Piece}
    (ne : ∀ a ∈ (Phrase.all : List α), Phrase.words a ≠ []) (h : Begins ends k)
    (absent : ∀ word ∈ Phrase.starts α, word ∉ ends) :
    (after [.space] k).bind (Reader.choose α) = none := by
  cases h with
  | ending => rfl
  | mark _ rest => rw [after_ne (by simp), Option.bind_none]
  | @word word hw rest =>
    show Reader.choose α (.fixed word :: rest) = none
    rw [Reader.choose, List.findSome?_eq_none_iff]
    intro a _
    obtain ⟨first, more, words⟩ := List.exists_cons_of_ne_nil (ne a (Phrase.mem_all a))
    obtain ⟨tail, heq⟩ := phrase_cons first more
    rw [Phrase.pieces, words, heq, after_ne]
    · rfl
    · intro same
      refine absent first (Phrase.mem_starts words) ?_
      rwa [Piece.fixed.inj same]

theorem Reads.choiceOf {ok : List Piece → Prop}
    (found : ∀ a : α, Reads (Reader.choose α) ok (Phrase.pieces a) a)
    (absent : ∀ k, ok k → (after [.space] k).bind (Reader.choose α) = none) (a : Option α) :
    Reads (Reader.choice α) ok (Phrase.optional a) a := by
  intro k hk
  cases a with
  | none =>
    show Reader.choice α k = _
    rw [Reader.choice, absent k hk]
  | some a =>
    show Reader.choice α ([.space] ++ (Phrase.pieces a ++ k)) = _
    rw [Reader.choice, after_append, Option.bind_some, found a k hk]

/-- A phrase that may be absent is read before words that begin no phrase of its type. -/
theorem Reads.choice (h : Phrase.Distinct α) {ends : List String}
    (absent : ∀ word ∈ Phrase.starts α, word ∉ ends) (a : Option α) :
    Reads (Reader.choice α) (Begins ends) (Phrase.optional a) a :=
  .choiceOf (.choose h _) (fun _ hk => Reader.choose_eq_none h.nonempty hk absent) a

theorem Begins.optional {ends : List String} {k : List Piece} (h : Begins ends k)
    (ne : ∀ a ∈ (Phrase.all : List α), Phrase.words a ≠ []) (a : Option α) :
    Begins (Phrase.starts α ++ ends) (Phrase.optional a ++ k) := by
  cases a with
  | none => exact h.mono (List.subset_append_right ..)
  | some a =>
    obtain ⟨first, more, words⟩ := List.exists_cons_of_ne_nil (ne a (Phrase.mem_all a))
    obtain ⟨tail, heq⟩ := phrase_cons first more
    show Begins _ (.space :: (Phrase.pieces a ++ k))
    rw [Phrase.pieces, words, heq]
    exact .word (List.mem_append_left _ (Phrase.mem_starts words)) _

end Phrases

/-! ## The phrases of each type -/

theorem SortOrder.distinct : Phrase.Distinct SortOrder := ⟨by decide, by decide⟩

theorem NullPlacement.distinct : Phrase.Distinct NullPlacement := ⟨by decide, by decide⟩

theorem JoinKind.distinct : Phrase.Distinct JoinKind := ⟨by decide, by decide⟩

theorem ConflictAction.distinct : Phrase.Distinct ConflictAction := ⟨by decide, by decide⟩

theorem InsertVerb.distinct : Phrase.Distinct InsertVerb := ⟨by decide, by decide⟩

theorem ForeignKeyAction.distinct : Phrase.Distinct ForeignKeyAction := ⟨by decide, by decide⟩

theorem GeneratedStorage.distinct : Phrase.Distinct GeneratedStorage := ⟨by decide, by decide⟩

theorem TriggerTiming.distinct : Phrase.Distinct TriggerTiming := ⟨by decide, by decide⟩

theorem ObjectKind.distinct : Phrase.Distinct ObjectKind := ⟨by decide, by decide⟩

theorem TransactionMode.distinct : Phrase.Distinct TransactionMode := ⟨by decide, by decide⟩

/-! ## Names -/

namespace Reader

def name : Reader String := fun ps =>
  match ps with
  | .name n :: rest => some (n, rest)
  | _ => none

/-- Names in parentheses, at least one. -/
def names : Reader (List String) := bracketed (listOf name)

/-- Names in parentheses directly here, if a parenthesis opens here. -/
def columnList : Reader (List String) := fun ps =>
  match after [.fixed "("] ps with
  | some _ => names ps
  | none => some ([], ps)

/-- Names in parentheses after a space, if a parenthesis opens after it. -/
def spacedNames : Reader (List String) := fun ps =>
  match after [.space, .fixed "("] ps with
  | some _ => (do fixed [.space]; names : Reader (List String)) ps
  | none => some ([], ps)

/-- A name after `AS`, if there is one. -/
def asName : Reader (Option String) := optionally (lead ["AS"]) name

end Reader

theorem Reads.name (n : String) (ok : List Piece → Prop) : Reads Reader.name ok [.name n] n :=
  fun _ _ => rfl

theorem Reads.names {names : List String} (ne : names ≠ []) (ok : List Piece → Prop) :
    Reads Reader.names ok (nameList names) names := by
  have list : Reads (Reader.listOf Reader.name) (Begins [")"])
      (commaSeparated (names.map fun n => [.name n])) (names.map id) :=
    .listOf ne (fun n _ => .name n _) (by decide)
  rw [List.map_id] at list
  exact list.bracketed (fun k => .mark (List.mem_singleton.mpr rfl) k) ok

theorem Reads.columnList {ends : List String} (absent : "(" ∉ ends) (names : List String) :
    Reads Reader.columnList (Begins ends) (optionalNames names) names := by
  intro k hk
  cases names with
  | nil =>
    show Reader.columnList k = _
    rw [Reader.columnList, hk.after_mark absent]
  | cons n rest => exact Reads.names (List.cons_ne_nil n rest) (Begins ends) k hk

theorem Reads.spacedNames {ends : List String} (absent : "(" ∉ ends) (names : List String) :
    Reads Reader.spacedNames (Begins ends)
      (if names.isEmpty then [] else .space :: nameList names) names := by
  intro k hk
  cases names with
  | nil =>
    show Reader.spacedNames k = _
    rw [Reader.spacedNames, hk.after_word absent]
  | cons n rest =>
    exact Reads.headed [.space] (Reads.names (List.cons_ne_nil n rest) (Begins ends)) k hk

theorem Reads.asName {ends : List String} (absent : "AS" ∉ ends) (asName : Option String) :
    Reads Reader.asName (Begins ends) (asClause asName) asName := by
  have h : Reads Reader.asName (Begins ends) (asClause asName) (asName.map id) :=
    .clause (fun n _ => .name n _) absent []
  rwa [Option.map_id] at h

def QualifiedName.read : Reader QualifiedName := fun ps =>
  match ps with
  | .name schema :: .fixed "." :: .name n :: rest => some (⟨some schema, n⟩, rest)
  | .name n :: rest => some (⟨none, n⟩, rest)
  | _ => none

theorem QualifiedName.reads {ends : List String} (absent : "." ∉ ends) (n : QualifiedName) :
    Reads QualifiedName.read (Begins ends) n.pieces n := by
  intro k hk
  obtain ⟨schema, n⟩ := n
  cases schema with
  | some schema => rfl
  | none =>
    show QualifiedName.read (.name n :: k) = _
    unfold QualifiedName.read
    split
    · next heq =>
      cases heq
      cases hk with
      | mark h _ => exact absurd h absent
    · next heq =>
      cases heq
      rfl
    · next h => exact absurd rfl (h n k)

/-! ## Tables -/

def IndexHint.read : Reader (Option IndexHint) := fun ps =>
  match after (lead ["INDEXED", "BY"]) ps with
  | some rest => ((some ∘ .indexedBy) <$> Reader.name) rest
  | none =>
    match after (.space :: phrase ["NOT", "INDEXED"]) ps with
    | some rest => some (some .notIndexed, rest)
    | none => some (none, ps)

theorem IndexHint.reads {ends : List String} (indexed : "INDEXED" ∉ ends) (not : "NOT" ∉ ends)
    (hint : Option IndexHint) :
    Reads IndexHint.read (Begins ends) (spaced (hint.map IndexHint.pieces)) hint := by
  intro k hk
  cases hint with
  | none =>
    show IndexHint.read k = _
    simp only [IndexHint.read, hk.after_lead indexed, hk.after_phrase not]
  | some hint => cases hint <;> rfl

def TableRef.read : Reader TableRef := do
  let name ← QualifiedName.read
  let asName ← Reader.asName
  let hint ← IndexHint.read
  return ⟨name, asName, hint⟩

theorem Begins.hint {ends : List String} {k : List Piece} (h : Begins ends k)
    (hint : Option IndexHint) :
    Begins ("INDEXED" :: "NOT" :: ends) (spaced (hint.map IndexHint.pieces) ++ k) := by
  cases hint with
  | none => exact h.mono fun w hw => List.mem_cons_of_mem _ (List.mem_cons_of_mem _ hw)
  | some hint =>
    cases hint with
    | indexedBy index => exact .word (by simp) _
    | notIndexed => exact .word (by simp) _

theorem TableRef.reads {ends : List String} (absent : ∀ w ∈ ["AS", "INDEXED", "NOT", "."], w ∉ ends)
    (t : TableRef) : Reads TableRef.read (Begins ends) t.pieces t := by
  have dot : "." ∉ "AS" :: "INDEXED" :: "NOT" :: ends := by
    simpa using absent "." (by simp)
  have as : "AS" ∉ "INDEXED" :: "NOT" :: ends := by
    simpa using absent "AS" (by simp)
  rw [TableRef.pieces, List.append_assoc]
  refine .bind (t.name.reads dot) (fun k hk => ?_)
    (.bind (.asName as t.asName) (fun k hk => hk.hint t.hint)
      (.last (IndexHint.reads (absent _ (by simp)) (absent _ (by simp)) t.hint) _))
  rw [List.append_assoc]
  exact (hk.hint t.hint).clause "AS" [] _

end SqliteSyntax
