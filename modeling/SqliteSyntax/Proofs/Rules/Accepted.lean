import SqliteSyntax.Draft.Statement
import SqliteSyntax.Proofs.Rules.Sound

/-! # What accepted checks say

The checks of calls and of finished statements give a result or a failure. Each lemma here reads the
result of one of them as the rule that it decides. -/
namespace SqliteSyntax
set_option autoImplicit false

/-! ## Results -/

section
variable {α β ε : Type}

theorem bind_eq_ok {x : Except ε α} {f : α → Except ε β} {b : β} :
    x >>= f = .ok b ↔ ∃ a, x = .ok a ∧ f a = .ok b := by
  cases x <;> simp [bind, Except.bind]

theorem then_eq_ok {x y : Except ε Unit} :
    (do x; y) = .ok () ↔ x = .ok () ∧ y = .ok () := by
  cases x <;> simp [bind, Except.bind]

theorem map_eq_ok {x : Except ε α} {f : α → β} {b : β} :
    x.map f = .ok b ↔ ∃ a, x = .ok a ∧ f a = b := by
  cases x <;> simp [Except.map]

theorem pure_eq_ok {a b : α} : (pure a : Except ε α) = .ok b ↔ a = b := by
  simp [pure, Except.pure]

theorem orRefuse_eq_ok {x : Except Error α} {a : α} : orRefuse x = .ok a ↔ x = .ok a := by
  cases x <;> simp [orRefuse]

theorem required_eq_ok {list : RequiredList} {items found : List α} :
    required list items = .ok found ↔ items ≠ [] ∧ found = items := by
  cases items with
  | nil => simp [required]
  | cons a rest =>
    simp only [required, List.isEmpty_cons, Bool.false_eq_true, if_false, Except.ok.injEq, ne_eq,
      reduceCtorEq, not_false_eq_true, true_and]
    exact eq_comm

theorem not_error_of_ok {x : Except Failure α} {a : α} (h : x = .ok a) :
    (∃ failure, x = .error failure) ↔ False := by
  rw [h]
  simp

theorem bind_eq_error {x : Except Failure α} {f : α → Except Failure β} :
    (∃ failure, x >>= f = .error failure) ↔
      (∃ failure, x = .error failure) ∨ ∃ a, x = .ok a ∧ ∃ failure, f a = .error failure := by
  cases x <;> simp [bind, Except.bind]

theorem required_eq_error {list : RequiredList} {items : List α} :
    (∃ failure, orRefuse (required list items) = .error failure) ↔ items = [] := by
  cases items <;> simp [required, orRefuse]

end

theorem demand_eq_ok {holds : Bool} {fault : StepFault} :
    demand holds fault = .ok () ↔ holds = true := by
  cases holds <;> simp [demand]

/-! ## Rows -/

/-- Accepted rows are of one width, which is the one asked for if there is one. -/
theorem widths_of_checkRowWidths {place : RowPlace} {rows : List (List Expr)} {asked : Option Nat}
    (h : checkRowWidths place rows asked = .ok ()) :
    rows ≠ [] ∧ ∃ width, 0 < width ∧ (∀ n ∈ asked, n = width) ∧ ∀ row ∈ rows, row.length = width := by
  cases rows with
  | nil => simp [checkRowWidths] at h
  | cons first rest =>
    refine ⟨by simp, asked.getD first.length, ?_, ?_, ?_⟩
    · by_contra h0
      rw [checkRowWidths, if_pos (by omega)] at h
      cases h
    · intro n hn
      rw [Option.mem_def.mp hn, Option.getD_some]
    · simp only [checkRowWidths] at h
      split at h
      · cases h
      · split at h
        · rename_i hfind
          simpa [List.find?_eq_none] using hfind
        · cases h

theorem evenRows_of_checkRowWidths {place : RowPlace} {rows : List (List Expr)}
    {asked : Option Nat} (h : checkRowWidths place rows asked = .ok ()) : EvenRows rows := by
  obtain ⟨hne, width, hpos, -, hall⟩ := widths_of_checkRowWidths h
  exact ⟨hne, width, hpos, hall⟩

theorem checkRows_eq_ok {kind : StatementKind} {rows : List (List Expr)} :
    Shape.checkRows kind rows = .ok () ↔ EvenRows rows := by
  cases rows with
  | nil => simp [Shape.checkRows, EvenRows]
  | cons first rest =>
    have even : EvenRows (first :: rest) ↔
        first ≠ [] ∧ ∀ row ∈ rest, row.length = first.length := by
      constructor
      · rintro ⟨-, width, hpos, hall⟩
        obtain ⟨hfirst, hrest⟩ := List.forall_mem_cons.mp hall
        refine ⟨List.ne_nil_of_length_pos (by omega), fun row hrow => ?_⟩
        rw [hrest row hrow, hfirst]
      · rintro ⟨hne, hrest⟩
        exact ⟨by simp, first.length, List.length_pos_iff.mpr hne,
          List.forall_mem_cons.mpr ⟨rfl, hrest⟩⟩
    rw [even]
    cases first with
    | nil => simp [Shape.checkRows]
    | cons value values => simp [Shape.checkRows]

/-! ## Assignments -/

theorem Assignment.columns_of_toColumns {columns : List String} {value : Expr} {a : Assignment}
    (h : Assignment.toColumns columns value = .ok a) : a = ⟨columns, value⟩ ∧ columns ≠ [] := by
  obtain ⟨found, hfound, ha⟩ := bind_eq_ok.mp h
  obtain ⟨hne, rfl⟩ := required_eq_ok.mp hfound
  exact ⟨(pure_eq_ok.mp ha).symm, hne⟩

theorem SetSound.append {assignments : List Assignment} {a : Assignment}
    (h : ∀ a ∈ assignments, a.columns ≠ []) (ha : a.columns ≠ []) : SetSound (assignments ++ [a]) :=
  ⟨by simp, List.forall_mem_append.mpr ⟨h, List.forall_mem_singleton.mpr ha⟩⟩

end SqliteSyntax
