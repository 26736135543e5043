import SqliteSyntax.Expr.Basic

/-! # Equality of expressions and queries

Two values are the same when they are built alike from the same names, texts and numbers. Reals
compare as numbers, so the two zeros are the same; every other leaf compares as it stands. -/
namespace SqliteSyntax
set_option autoImplicit false

mutual

def Expr.same : Expr → Expr → Bool
  | .literal a, .literal b => a.same b
  | .column a, .column b => a == b
  | .unary op a, .unary op' b => op == op' && a.same b
  | .binary op a₁ a₂, .binary op' b₁ b₂ => op == op' && a₁.same b₁ && a₂.same b₂
  | .nullTest t a, .nullTest t' b => t == t' && a.same b
  | .collate a c, .collate b c' => c == c' && a.same b
  | .pattern op n a₁ a₂ a₃, .pattern op' n' b₁ b₂ b₃ =>
    op == op' && n == n' && a₁.same b₁ && a₂.same b₂ && sameOption a₃ b₃
  | .between n a₁ a₂ a₃, .between n' b₁ b₂ b₃ =>
    n == n' && a₁.same b₁ && a₂.same b₂ && a₃.same b₃
  | .inList n a as, .inList n' b bs => n == n' && a.same b && sameList as bs
  | .inSelect n a q, .inSelect n' b q' => n == n' && a.same b && q.same q'
  | .existsRow n q, .existsRow n' q' => n == n' && q.same q'
  | .subquery q, .subquery q' => q.same q'
  | .call f d as, .call f' d' bs => f == f' && d == d' && sameList as bs
  | .callStar f d, .callStar f' d' => f == f' && d == d'
  | .caseWhen a₁ as a₂, .caseWhen b₁ bs b₂ =>
    sameOption a₁ b₁ && sameBranches as bs && sameOption a₂ b₂
  | .cast a t, .cast b t' => t == t' && a.same b
  | .row as, .row bs => sameList as bs
  | .raise a, .raise b => a == b
  | _, _ => false

def sameList : List Expr → List Expr → Bool
  | [], [] => true
  | a :: as, b :: bs => a.same b && sameList as bs
  | _, _ => false

def sameOption : Option Expr → Option Expr → Bool
  | none, none => true
  | some a, some b => a.same b
  | _, _ => false

def sameBranches : List (Expr × Expr) → List (Expr × Expr) → Bool
  | [], [] => true
  | (a₁, a₂) :: as, (b₁, b₂) :: bs => a₁.same b₁ && a₂.same b₂ && sameBranches as bs
  | _, _ => false

def sameRows : List (List Expr) → List (List Expr) → Bool
  | [], [] => true
  | a :: as, b :: bs => sameList a b && sameRows as bs
  | _, _ => false

def Select.same : Select → Select → Bool
  | ⟨w, b, cs, os, l, o⟩, ⟨w', b', cs', os', l', o'⟩ =>
    sameWith w w' && b.same b' && sameCompounds cs cs' && sameTerms os os' && sameOption l l' &&
      sameOption o o'

def sameWith : Option WithClause → Option WithClause → Bool
  | none, none => true
  | some ⟨r, ts⟩, some ⟨r', ts'⟩ => r == r' && sameTables ts ts'
  | _, _ => false

def sameTables : List CommonTable → List CommonTable → Bool
  | [], [] => true
  | ⟨n, cs, m, q⟩ :: ts, ⟨n', cs', m', q'⟩ :: ts' =>
    n == n' && cs == cs' && m == m' && q.same q' && sameTables ts ts'
  | _, _ => false

def SelectBody.same : SelectBody → SelectBody → Bool
  | .core c, .core c' => c.same c'
  | .values rs, .values rs' => sameRows rs rs'
  | _, _ => false

def sameCompounds : List (SetOperator × SelectBody) → List (SetOperator × SelectBody) → Bool
  | [], [] => true
  | (op, b) :: cs, (op', b') :: cs' => op == op' && b.same b' && sameCompounds cs cs'
  | _, _ => false

def SelectCore.same : SelectCore → SelectCore → Bool
  | ⟨d, cs, s, f, gs, h⟩, ⟨d', cs', s', f', gs', h'⟩ =>
    d == d' && sameColumns cs cs' && sameSource s s' && sameOption f f' && sameList gs gs' &&
      sameOption h h'

def sameSource : Option FromTree → Option FromTree → Bool
  | none, none => true
  | some t, some t' => t.same t'
  | _, _ => false

def sameColumns : List ResultColumn → List ResultColumn → Bool
  | [], [] => true
  | .star :: cs, .star :: cs' => sameColumns cs cs'
  | .tableStar t :: cs, .tableStar t' :: cs' => t == t' && sameColumns cs cs'
  | .expr e n :: cs, .expr e' n' :: cs' => n == n' && e.same e' && sameColumns cs cs'
  | _, _ => false

def sameTerms : List OrderingTerm → List OrderingTerm → Bool
  | [], [] => true
  | ⟨e, c, d, n⟩ :: ts, ⟨e', c', d', n'⟩ :: ts' =>
    e.same e' && c == c' && d == d' && n == n' && sameTerms ts ts'
  | _, _ => false

def FromTree.same : FromTree → FromTree → Bool
  | .table t, .table t' => t == t'
  | .subquery q n, .subquery q' n' => n == n' && q.same q'
  | .function f as n, .function f' bs n' => f == f' && n == n' && sameList as bs
  | .join l op r c, .join l' op' r' c' =>
    op == op' && l.same l' && r.same r' && sameConstraint c c'
  | _, _ => false

def sameConstraint : Option JoinConstraint → Option JoinConstraint → Bool
  | none, none => true
  | some (.condition e), some (.condition e') => e.same e'
  | some (.columns ns), some (.columns ns') => ns == ns'
  | _, _ => false

end

instance : BEq Expr := ⟨Expr.same⟩
instance : BEq Select := ⟨Select.same⟩
instance : BEq FromTree := ⟨FromTree.same⟩
instance : BEq ResultColumn := ⟨fun a b => sameColumns [a] [b]⟩
instance : BEq OrderingTerm := ⟨fun a b => sameTerms [a] [b]⟩
instance : BEq CommonTable := ⟨fun a b => sameTables [a] [b]⟩
instance : BEq WithClause := ⟨fun a b => sameTables a.tables b.tables && a.recursive == b.recursive⟩
instance : BEq SelectBody := ⟨SelectBody.same⟩
instance : BEq SelectCore := ⟨SelectCore.same⟩

end SqliteSyntax
