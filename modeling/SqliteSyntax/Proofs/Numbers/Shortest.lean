import SqliteSyntax.Proofs.Numbers.Magnitude
import SqliteSyntax.Proofs.Numbers.Value

/-! # The shortest decimal of a magnitude

The search compares natural numbers; `Shortest.reads_iff` says that it thereby decides whether a decimal
lies in the interval of the magnitude. The interval meets no grid coarser than the first one searched
and every grid as fine as a quarter of the last place, so the search ends with a hit, on the coarsest
grid that has one (`Shortest.decimal_hit`).

Hence the decimal found rounds to the magnitude (`Shortest.roundsTo_decimal`), no decimal that rounds to
it has fewer digits (`Shortest.digits_length_le`), and it stands on the same side of a power of ten as
the magnitude does (`Shortest.decimal_lt_iff`). -/
namespace SqliteSyntax
set_option autoImplicit false

namespace Shortest
open Binary64

/-! ## Comparisons on the common scale -/

theorem pow_toNat {b : ℚ} (hb : b ≠ 0) (k : Int) : b ^ k.toNat = b ^ k * b ^ (-k).toNat := by
  rw [← zpow_natCast, ← zpow_natCast, ← zpow_add₀ hb]
  congr 1
  omega

/-- Both units are their powers times the denominators of both. -/
theorem units (q e : Int) : ∃ scale : ℚ, 0 < scale ∧
    (binaryUnit q e : ℚ) = 2 ^ (q - 2) * scale ∧ (decimalUnit q e : ℚ) = 10 ^ e * scale := by
  refine ⟨2 ^ (2 - q).toNat * 10 ^ (-e).toNat, by positivity, ?_, ?_⟩
  · have two := pow_toNat (b := 2) (by norm_num) (q - 2)
    rw [neg_sub] at two
    simp only [binaryUnit, Nat.pow_eq]
    push_cast
    rw [two, mul_assoc]
  · have ten := pow_toNat (b := 10) (by norm_num) e
    simp only [decimalUnit, Nat.pow_eq]
    push_cast
    rw [ten]
    ring

theorem compare_units (q e : Int) (k c : Nat) :
    (k * binaryUnit q e ≤ c * decimalUnit q e ↔ (k : ℚ) * 2 ^ (q - 2) ≤ c * 10 ^ e) ∧
    (c * decimalUnit q e ≤ k * binaryUnit q e ↔ (c : ℚ) * 10 ^ e ≤ k * 2 ^ (q - 2)) := by
  obtain ⟨scale, pos, binary, decimal⟩ := units q e
  constructor <;>
    rw [← Nat.cast_le (α := ℚ), Nat.cast_mul, Nat.cast_mul, binary, decimal, ← mul_assoc, ← mul_assoc,
      mul_le_mul_iff_left₀ pos]

theorem reads_iff {bits : UInt64} (ne : mantissa bits ≠ 0) (e : Int) (c : Nat) :
    reads bits e c = true ↔ InInterval (Decimal.value ⟨c, e⟩) bits := by
  have quarters : lowerQuarters bits ≤ 4 * mantissa bits := by
    have := (lowerQuarters_bounds bits).2
    omega
  obtain ⟨low, low'⟩ :=
    compare_units (exponent bits) e (4 * mantissa bits - lowerQuarters bits) c
  obtain ⟨high', high⟩ := compare_units (exponent bits) e (4 * mantissa bits + 2) c
  push_cast [quarters] at low low' high high'
  rw [Decimal.value]
  unfold reads ownsEnds
  split
  · next even =>
    rw [beq_iff_eq] at even
    rw [Bool.and_eq_true, decide_eq_true_iff, decide_eq_true_iff, low, high]
    exact ⟨fun h => ⟨h.1, h.2, fun _ => even⟩, fun h => ⟨h.low, h.high⟩⟩
  · next odd =>
    rw [beq_iff_eq] at odd
    rw [Bool.and_eq_true, decide_eq_true_iff, decide_eq_true_iff, ← not_le, ← not_le, low', high',
      not_le, not_le]
    exact ⟨fun h => inInterval_of_lt h.1 h.2, fun h =>
      ⟨lt_of_le_of_ne h.low fun eq => odd (h.ends (.inl eq.symm)),
        lt_of_le_of_ne h.high fun eq => odd (h.ends (.inr eq))⟩⟩

/-! ## One grid -/

/-- The largest point of the grid that is not above the magnitude. -/
def below (bits : UInt64) (e : Int) : Nat :=
  4 * mantissa bits * binaryUnit (exponent bits) e / decimalUnit (exponent bits) e

theorem below_le_lt (bits : UInt64) (e : Int) : Decimal.value ⟨below bits e, e⟩ ≤ magnitude bits ∧
    magnitude bits < Decimal.value ⟨below bits e + 1, e⟩ := by
  have unit_pos : 0 < decimalUnit (exponent bits) e :=
    Nat.mul_pos (Nat.pow_pos (by decide)) (Nat.pow_pos (by decide))
  have under := (compare_units (exponent bits) e (4 * mantissa bits) (below bits e)).2.mp
    (Nat.div_mul_le_self _ _)
  have beyond := mt (compare_units (exponent bits) e (4 * mantissa bits) (below bits e + 1)).2.mpr
    (not_le.mpr (Nat.lt_mul_of_div_lt (Nat.lt_succ_self _) unit_pos))
  rw [not_le] at beyond
  push_cast at under beyond
  rw [← magnitude_eq_quarters] at under beyond
  rw [Decimal.value, Decimal.value]
  push_cast
  exact ⟨under, beyond⟩

/-- One of the two neighbours is tried first, then the other one. -/
theorem onGrid?_eq (bits : UInt64) (e : Int) : ∃ near far,
    (near = below bits e ∧ far = below bits e + 1 ∨ near = below bits e + 1 ∧ far = below bits e) ∧
    onGrid? bits e = if reads bits e near then some ⟨near, e⟩
      else if reads bits e far then some ⟨far, e⟩ else none := by
  unfold onGrid?
  simp only []
  split
  · exact ⟨_, _, .inl ⟨rfl, rfl⟩, rfl⟩
  · exact ⟨_, _, .inr ⟨rfl, rfl⟩, rfl⟩

theorem onGrid?_eq_some {bits : UInt64} (ne : mantissa bits ≠ 0) {e : Int} {d : Decimal}
    (h : onGrid? bits e = some d) : d.exponent = e ∧ InInterval d.value bits := by
  obtain ⟨near, far, -, eq⟩ := onGrid?_eq bits e
  rw [eq] at h
  split at h
  · next near =>
    cases h
    exact ⟨rfl, (reads_iff ne _ _).mp near⟩
  · split at h
    · next far =>
      cases h
      exact ⟨rfl, (reads_iff ne _ _).mp far⟩
    · exact nomatch h

/-- Of the magnitude's two neighbours on the grid one is in the interval if any point of the grid is:
it stands between that point and the magnitude. -/
theorem onGrid?_isSome {bits : UInt64} (ne : mantissa bits ≠ 0) {e : Int} {c : Nat}
    (h : InInterval (Decimal.value ⟨c, e⟩) bits) : (onGrid? bits e).isSome = true := by
  have mono {a b : Nat} (hab : a ≤ b) : Decimal.value ⟨a, e⟩ ≤ Decimal.value ⟨b, e⟩ :=
    mul_le_mul_of_nonneg_right (by exact_mod_cast hab) (by positivity)
  obtain ⟨under, beyond⟩ := below_le_lt bits e
  have neighbour : reads bits e (below bits e) = true ∨ reads bits e (below bits e + 1) = true := by
    rw [reads_iff ne, reads_iff ne]
    rcases Nat.lt_or_ge (below bits e) c with above | above
    · exact .inr ((inInterval_magnitude bits).convex h beyond.le (mono above))
    · exact .inl (h.convex (inInterval_magnitude bits) (mono above) under)
  obtain ⟨near, far, ⟨rfl, rfl⟩ | ⟨rfl, rfl⟩, eq⟩ := onGrid?_eq bits e
  all_goals
    rw [eq]
    split
    · rfl
    · rw [if_pos (by tauto)]
      rfl

/-! ## The search -/

theorem search_eq_some {bits : UInt64} {n : Nat} {start : Int} {d : Decimal}
    (h : search bits n start = some d) : ∃ e ≤ start, onGrid? bits e = some d ∧
      ∀ coarser, e < coarser → coarser ≤ start → onGrid? bits coarser = none := by
  induction n generalizing start with
  | zero => exact nomatch h
  | succ n ih =>
    rw [search] at h
    cases hit : onGrid? bits start with
    | some found =>
      rw [hit, Option.some_or, Option.some.injEq] at h
      subst h
      exact ⟨start, le_rfl, hit, fun coarser gt le => absurd le (not_le.mpr gt)⟩
    | none =>
      rw [hit, Option.none_or] at h
      obtain ⟨e, le, found, missed⟩ := ih h
      refine ⟨e, by omega, found, fun coarser gt le => ?_⟩
      by_cases first : coarser = start
      · exact first ▸ hit
      · exact missed coarser gt (by omega)

theorem search_isSome {bits : UInt64} {n : Nat} {start e : Int}
    (h : (onGrid? bits e).isSome = true) (le : e ≤ start) (lt : start < e + n) :
    (search bits n start).isSome = true := by
  induction n generalizing start with
  | zero => omega
  | succ n ih =>
    rw [search, Option.isSome_or, Bool.or_eq_true]
    by_cases first : e = start
    · exact .inl (first ▸ h)
    · exact .inr (ih (by omega) (by push_cast at lt; omega))

/-! ## The grids that are searched -/

/-- The interval ends before the power of two from which the first grid is taken. -/
theorem lt_two_zpow {x : ℚ} {bits : UInt64} (h : InInterval x bits) :
    x < 2 ^ (exponent bits + Nat.log2 (mantissa bits) + 2) := by
  have top : (4 * mantissa bits + 2 : ℚ) < 2 ^ (Nat.log2 (mantissa bits) + 4) := by
    have : mantissa bits < 2 ^ (Nat.log2 (mantissa bits) + 1) := Nat.lt_log2_self
    have : 4 * mantissa bits + 2 < 2 ^ (Nat.log2 (mantissa bits) + 4) := by
      rw [pow_add] at this ⊢
      omega
    exact_mod_cast this
  refine lt_of_le_of_lt h.high (lt_of_lt_of_eq (mul_lt_mul_of_pos_right top (by positivity)) ?_)
  rw [← zpow_natCast, ← zpow_add₀ two_ne_zero]
  congr 1
  push_cast
  ring

/-- A negative power falls as its base grows. -/
theorem zpow_le_zpow_of_nonpos {a b : ℚ} {k : Int} (hk : k ≤ 0) (ha : 0 < a) (h : a ≤ b) :
    b ^ k ≤ a ^ k := by
  obtain ⟨n, rfl⟩ : ∃ n : Nat, k = -n := ⟨k.natAbs, by omega⟩
  rw [zpow_neg, zpow_neg, zpow_natCast, zpow_natCast]
  exact inv_anti₀ (pow_pos ha n) (pow_le_pow_left₀ ha.le h n)

theorem two_zpow_le_ten_zpow_coarsest (bits : UInt64) :
    (2 : ℚ) ^ (exponent bits + Nat.log2 (mantissa bits) + 2) ≤ 10 ^ coarsestExponent bits := by
  have eight : (8 : ℚ) = 2 ^ (3 : Int) := by norm_num
  have sixteen : (16 : ℚ) = 2 ^ (4 : Int) := by norm_num
  unfold coarsestExponent
  generalize exponent bits + Nat.log2 (mantissa bits) + 2 = b
  simp only []
  -- a positive power is bounded from below by the base 8, a negative one by the base 16
  split
  · next nonneg =>
    calc (2 : ℚ) ^ b ≤ 2 ^ (3 * (b / 3 + 1)) := zpow_le_zpow_right₀ (by norm_num) (by omega)
      _ = 8 ^ (b / 3 + 1) := by rw [eight, zpow_mul]
      _ ≤ 10 ^ (b / 3 + 1) := zpow_le_zpow_left₀ (by omega) (by norm_num) (by norm_num)
  · next negative =>
    calc (2 : ℚ) ^ b ≤ 2 ^ (4 * (b / 4 + 1)) := zpow_le_zpow_right₀ (by norm_num) (by omega)
      _ = 16 ^ (b / 4 + 1) := by rw [sixteen, zpow_mul]
      _ ≤ 10 ^ (b / 4 + 1) := zpow_le_zpow_of_nonpos (by omega) (by norm_num) (by norm_num)

/-- A grid with a point in the interval is finer than the first one searched. -/
theorem lt_coarsestExponent {bits : UInt64} (ne : mantissa bits ≠ 0) {d : Decimal}
    (h : InInterval d.value bits) : d.exponent < coarsestExponent bits := by
  rw [← zpow_lt_zpow_iff_right₀ (a := (10 : ℚ)) (by norm_num)]
  calc (10 : ℚ) ^ d.exponent ≤ d.value := Decimal.ten_zpow_exponent_le (h.pos ne)
    _ < 2 ^ (exponent bits + Nat.log2 (mantissa bits) + 2) := lt_two_zpow h
    _ ≤ 10 ^ coarsestExponent bits := two_zpow_le_ten_zpow_coarsest bits

/-- A grid whose step is at most a quarter of the last place. -/
def fineExponent (bits : UInt64) : Int :=
  if 2 ≤ exponent bits then 0 else (exponent bits - 2) / 3

theorem ten_zpow_fineExponent_le (bits : UInt64) :
    (10 : ℚ) ^ fineExponent bits ≤ 2 ^ (exponent bits - 2) := by
  have eight : (8 : ℚ) = 2 ^ (3 : Int) := by norm_num
  unfold fineExponent
  split
  · next large =>
    rw [zpow_zero]
    exact one_le_zpow₀ (by norm_num) (by omega)
  · calc (10 : ℚ) ^ ((exponent bits - 2) / 3) ≤ 8 ^ ((exponent bits - 2) / 3) :=
          zpow_le_zpow_of_nonpos (by omega) (by norm_num) (by norm_num)
      _ = 2 ^ (3 * ((exponent bits - 2) / 3)) := by rw [eight, zpow_mul]
      _ ≤ 2 ^ (exponent bits - 2) := zpow_le_zpow_right₀ (by norm_num) (by omega)

/-- On so fine a grid the point below the magnitude is less than a quarter away. -/
theorem onGrid?_fineExponent {bits : UInt64} (ne : mantissa bits ≠ 0) :
    (onGrid? bits (fineExponent bits)).isSome = true := by
  obtain ⟨under, beyond⟩ := below_le_lt bits (fineExponent bits)
  have step := ten_zpow_fineExponent_le bits
  refine onGrid?_isSome ne (c := below bits (fineExponent bits)) (inInterval_near ?_ under)
  rw [Decimal.value, Nat.cast_add, Nat.cast_one, add_mul, one_mul] at beyond
  rw [Decimal.value]
  linarith

theorem fineExponent_searched {bits : UInt64} (ne : mantissa bits ≠ 0) :
    fineExponent bits ≤ coarsestExponent bits ∧ coarsestExponent bits < fineExponent bits + 800 := by
  have log : Nat.log2 (mantissa bits) < 53 := (Nat.log2_lt ne).mpr (mantissa_lt bits)
  obtain ⟨low, high⟩ := exponent_bounds bits
  unfold fineExponent coarsestExponent
  simp only []
  split <;> split <;> omega

/-! ## The decimal found -/

/-- The decimal found lies in the interval, on the coarsest grid that has a point there. -/
theorem decimal_hit {bits : UInt64} (ne : mantissa bits ≠ 0) :
    InInterval (decimal bits).value bits ∧
    ∀ d : Decimal, InInterval d.value bits → d.exponent ≤ (decimal bits).exponent := by
  obtain ⟨start, bound⟩ := fineExponent_searched ne
  have found := search_isSome (onGrid?_fineExponent ne) start bound
  obtain ⟨d, hd⟩ := Option.isSome_iff_exists.mp found
  obtain ⟨e, -, hit, missed⟩ := search_eq_some hd
  obtain ⟨rfl, inside⟩ := onGrid?_eq_some ne hit
  have eq : decimal bits = d := by
    rw [decimal, hd, Option.getD_some]
  rw [eq]
  refine ⟨inside, fun other h => ?_⟩
  by_contra coarser
  have none := missed other.exponent (by omega) (lt_coarsestExponent ne h).le
  have some := onGrid?_isSome ne h
  rw [none] at some
  exact nomatch some

theorem roundsTo_decimal {bits : UInt64} (ne : mantissa bits ≠ 0) :
    RoundsTo (decimal bits).value bits :=
  (decimal_hit ne).1.roundsTo

/-- A power of ten in the interval is a point of the grid on which the decimal was found, or of a finer
one. -/
theorem exponent_of_ten_zpow {bits : UInt64} (ne : mantissa bits ≠ 0) {k : Int}
    (h : InInterval (10 ^ k) bits) : k ≤ (decimal bits).exponent := by
  refine (decimal_hit ne).2 ⟨1, k⟩ ?_
  rwa [Decimal.value, Nat.cast_one, one_mul]

/-! ## Fewest digits -/

theorem decimal_pos {bits : UInt64} (ne : mantissa bits ≠ 0) : 0 < (decimal bits).value :=
  (decimal_hit ne).1.pos ne

/-- No decimal that rounds to the magnitude has fewer digits than the one found: there would be a power
of ten between the two, on a coarser grid. -/
theorem digits_length_le {bits : UInt64} (finite : isFinite bits = true) (ne : mantissa bits ≠ 0)
    {d : Decimal} (h : RoundsTo d.value bits) :
    (decimal bits).digits.length ≤ d.digits.length := by
  obtain ⟨inside, coarsest⟩ := decimal_hit ne
  have other := h.inInterval finite d.value_nonneg
  have grid := coarsest d other
  by_contra fewer
  have place : d.pointPosition ≤ (decimal bits).pointPosition - 1 := by
    rw [Decimal.pointPosition, Decimal.pointPosition]
    omega
  have above : d.value ≤ 10 ^ ((decimal bits).pointPosition - 1) :=
    d.value_lt.le.trans (zpow_le_zpow_right₀ (by norm_num) place)
  have power := other.convex inside above (Decimal.le_value (decimal_pos ne))
  have coarser := exponent_of_ten_zpow ne power
  have := d.digits_length_pos
  rw [Decimal.pointPosition] at coarser
  omega

/-- The decimal found and the magnitude are on one side of a power of ten that does not round down. -/
theorem decimal_lt_iff {bits : UInt64} (finite : isFinite bits = true) (ne : mantissa bits ≠ 0)
    {k : Int} {power : UInt64} (number : IsNumber power) (rounds : RoundsTo (10 ^ k) power)
    (up : 10 ^ k ≤ magnitude power) : (decimal bits).value < 10 ^ k ↔ magnitude bits < 10 ^ k := by
  have inside := (decimal_hit ne).1
  constructor
  · intro below
    by_contra above
    have grid := exponent_of_ten_zpow ne
      (inside.convex (inInterval_magnitude bits) below.le (not_lt.mp above))
    exact absurd below (not_lt.mpr ((zpow_le_zpow_right₀ (by norm_num) grid).trans
      (Decimal.ten_zpow_exponent_le (decimal_pos ne))))
  · -- the power of ten rounds to the magnitude, thus upwards, and the magnitude is not below it
    intro below
    by_contra above
    have between := (inInterval_magnitude bits).convex inside below.le (not_lt.mp above)
    have same := between.roundsTo.unique rounds ((isNumber_iff bits).mpr ((isFinite_iff bits).mp finite).le)
      number
    rw [← magnitude_inj] at same
    exact absurd (same ▸ up) (not_le.mpr below)

end Shortest
end SqliteSyntax
