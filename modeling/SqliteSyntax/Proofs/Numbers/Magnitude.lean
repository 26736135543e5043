import Mathlib.Algebra.Order.Field.Power
import Mathlib.Algebra.Order.Field.Rat
import Mathlib.Algebra.Order.Group.Abs
import Mathlib.Order.Monotone.Basic
import Mathlib.Tactic.Linarith
import Mathlib.Tactic.Ring
import SqliteSyntax.Number.Shortest

/-! # Magnitudes and rounding

`Binary64.magnitude` is the number that a bit pattern stands for, its sign left aside. Magnitudes are
ordered as the patterns are (`Binary64.rank`), and from each to the next it is one unit of the last place
(`Binary64.magnitudeAt_succ`); both gaps around a magnitude follow.

`Binary64.RoundsTo` is rounding to the nearest, with ties to the even mantissa. At most one magnitude is
rounded to (`Binary64.RoundsTo.unique`), and what rounds to it is an interval
(`Binary64.RoundsTo.inInterval`, `Binary64.InInterval.roundsTo`). -/
namespace SqliteSyntax
set_option autoImplicit false

namespace Binary64

/-- The number that a pattern stands for without its sign. The pattern of infinity stands for the power
of two at which rounding overflows. -/
def magnitude (bits : UInt64) : ℚ := mantissa bits * 2 ^ exponent bits

/-- Not a NaN. -/
def IsNumber (bits : UInt64) : Prop := exponentField bits = 2047 → fractionField bits = 0

/-- The number is rounded to the magnitude of the pattern: no magnitude is nearer, and if another one is
as near the mantissa is even. -/
structure RoundsTo (x : ℚ) (bits : UInt64) : Prop where
  nearest : ∀ other, IsNumber other → |x - magnitude bits| ≤ |x - magnitude other|
  even : ∀ other, IsNumber other → magnitude other ≠ magnitude bits →
    |x - magnitude other| = |x - magnitude bits| → mantissa bits % 2 = 0

/-! ## Patterns in their order -/

/-- The bits without the sign, as a number. -/
def rank (bits : UInt64) : Nat := bits.toNat % 2 ^ 63

/-- The rank of infinity. -/
def topRank : Nat := 2047 * 2 ^ 52

def mantissaAt (n : Nat) : Nat := if n / 2 ^ 52 = 0 then n % 2 ^ 52 else 2 ^ 52 + n % 2 ^ 52

def exponentAt (n : Nat) : Int := (max (n / 2 ^ 52) 1 : Nat) - 1075

def magnitudeAt (n : Nat) : ℚ := mantissaAt n * 2 ^ exponentAt n

/-- The four-fold distance to the lower end of the interval, in units of the last place. -/
def quartersAt (n : Nat) : Nat := if n % 2 ^ 52 = 0 ∧ 1 < n / 2 ^ 52 then 1 else 2

theorem exponentField_eq (bits : UInt64) : exponentField bits = rank bits / 2 ^ 52 := by
  show bits.toNat / 2 ^ 52 % 2 ^ 11 = bits.toNat % 2 ^ 63 / 2 ^ 52
  omega

theorem fractionField_eq (bits : UInt64) : fractionField bits = rank bits % 2 ^ 52 := by
  show bits.toNat % 2 ^ 52 = bits.toNat % 2 ^ 63 % 2 ^ 52
  omega

theorem mantissa_eq (bits : UInt64) : mantissa bits = mantissaAt (rank bits) := by
  rw [mantissa, exponentField_eq, fractionField_eq]
  rfl

theorem exponent_eq (bits : UInt64) : exponent bits = exponentAt (rank bits) := by
  rw [exponent, exponentField_eq]
  rfl

theorem magnitude_eq (bits : UInt64) : magnitude bits = magnitudeAt (rank bits) := by
  rw [magnitude, mantissa_eq, exponent_eq]
  rfl

theorem lowerQuarters_eq (bits : UInt64) : lowerQuarters bits = quartersAt (rank bits) := by
  rw [lowerQuarters, exponentField_eq, fractionField_eq]
  rfl

theorem mantissaAt_mod_two (n : Nat) : mantissaAt n % 2 = n % 2 := by
  unfold mantissaAt
  split <;> omega

theorem rank_lt (bits : UInt64) : rank bits < 2 ^ 63 := Nat.mod_lt _ (by norm_num)

theorem rank_ofNat {n : Nat} (h : n < 2 ^ 63) : rank (UInt64.ofNat n) = n := by
  rw [rank, UInt64.toNat_ofNat']
  omega

theorem isNumber_iff (bits : UInt64) : IsNumber bits ↔ rank bits ≤ topRank := by
  have := rank_lt bits
  rw [IsNumber, exponentField_eq, fractionField_eq, topRank]
  omega

theorem isFinite_iff (bits : UInt64) : isFinite bits = true ↔ rank bits < topRank := by
  have := rank_lt bits
  rw [isFinite, bne_iff_ne, exponentField_eq, topRank]
  omega

/-- A pattern is its sign and its rank. -/
theorem eq_of_rank {a b : UInt64} (sign : isNegative a = isNegative b) (h : rank a = rank b) :
    a = b := by
  have sign : a.toNat / 2 ^ 63 = 1 ↔ b.toNat / 2 ^ 63 = 1 := by
    rw [← beq_iff_eq (a := a.toNat / 2 ^ 63), ← beq_iff_eq (a := b.toNat / 2 ^ 63)]
    exact Bool.eq_iff_iff.mp sign
  have := a.toNat_lt
  have := b.toNat_lt
  rw [rank, rank] at h
  rw [← UInt64.toNat_inj]
  omega

/-! ## Bounds -/

theorem lowerQuarters_bounds (bits : UInt64) : 1 ≤ lowerQuarters bits ∧ lowerQuarters bits ≤ 2 := by
  rw [lowerQuarters]
  split <;> decide

theorem exponent_bounds (bits : UInt64) : -1074 ≤ exponent bits ∧ exponent bits ≤ 972 := by
  have : exponentField bits < 2 ^ 11 := Nat.mod_lt _ (by decide)
  rw [exponent]
  omega

theorem mantissa_lt (bits : UInt64) : mantissa bits < 2 ^ 53 := by
  have : fractionField bits < 2 ^ 52 := Nat.mod_lt _ (by decide)
  rw [mantissa]
  split
  · omega
  · show 2 ^ 52 + fractionField bits < 2 ^ 53
    omega

theorem magnitude_eq_quarters (bits : UInt64) :
    magnitude bits = 4 * mantissa bits * 2 ^ (exponent bits - 2) := by
  rw [magnitude, zpow_sub₀ two_ne_zero]
  ring

/-! ## Gaps -/

/-- From a magnitude to the next it is one unit of the last place. -/
theorem magnitudeAt_succ (n : Nat) : magnitudeAt (n + 1) = magnitudeAt n + 2 ^ exponentAt n := by
  have two : (2 : ℚ) ≠ 0 := by norm_num
  by_cases carry : (n + 1) % 2 ^ 52 = 0
  · have full : n % 2 ^ 52 = 2 ^ 52 - 1 := by omega
    have next : (n + 1) / 2 ^ 52 = n / 2 ^ 52 + 1 := by omega
    have top : mantissaAt (n + 1) = 2 ^ 52 := by
      rw [mantissaAt, next, carry, if_neg (Nat.succ_ne_zero _), Nat.add_zero]
    by_cases low : n / 2 ^ 52 = 0
    · have exponent : exponentAt (n + 1) = exponentAt n := by
        rw [exponentAt, exponentAt, next, low]
        rfl
      rw [magnitudeAt, magnitudeAt, top, exponent, mantissaAt, if_pos low, full]
      push_cast
      ring
    · have exponent : exponentAt (n + 1) = exponentAt n + 1 := by
        rw [exponentAt, exponentAt, next]
        omega
      rw [magnitudeAt, magnitudeAt, top, exponent, mantissaAt, if_neg low, full, zpow_add_one₀ two]
      push_cast
      ring
  · have more : (n + 1) % 2 ^ 52 = n % 2 ^ 52 + 1 := by omega
    have same : (n + 1) / 2 ^ 52 = n / 2 ^ 52 := by omega
    have mantissa : mantissaAt (n + 1) = mantissaAt n + 1 := by
      rw [mantissaAt, mantissaAt, more, same]
      split <;> omega
    rw [magnitudeAt, magnitudeAt, mantissa, exponentAt, exponentAt, same]
    push_cast
    ring

/-- The unit of the magnitude before is half as large where a power of two begins. -/
theorem unit_before (n : Nat) :
    (2 : ℚ) ^ exponentAt n = quartersAt (n + 1) * 2 ^ (exponentAt (n + 1) - 1) := by
  have two : (2 : ℚ) ≠ 0 := by norm_num
  unfold quartersAt
  split
  · next h =>
    have exponent : exponentAt (n + 1) - 1 = exponentAt n := by
      rw [exponentAt, exponentAt]
      omega
    rw [exponent, Nat.cast_one, one_mul]
  · next h =>
    have exponent : exponentAt n = exponentAt (n + 1) - 1 + 1 := by
      rw [exponentAt, exponentAt]
      omega
    rw [exponent, zpow_add_one₀ two]
    push_cast
    ring

theorem magnitudeAt_strictMono : StrictMono magnitudeAt := by
  refine strictMono_nat_of_lt_succ fun n => ?_
  rw [magnitudeAt_succ]
  exact lt_add_of_pos_right _ (by positivity)

theorem magnitudeAt_above {n o : Nat} (h : n < o) :
    magnitudeAt n + 2 ^ exponentAt n ≤ magnitudeAt o := by
  rw [← magnitudeAt_succ]
  exact magnitudeAt_strictMono.monotone h

theorem magnitudeAt_below {n o : Nat} (h : o < n) :
    magnitudeAt o ≤ magnitudeAt n - quartersAt n * 2 ^ (exponentAt n - 1) := by
  obtain ⟨k, rfl⟩ : ∃ k, n = k + 1 := ⟨n - 1, by omega⟩
  rw [magnitudeAt_succ, ← unit_before, add_sub_cancel_right]
  exact magnitudeAt_strictMono.monotone (Nat.le_of_lt_succ h)

theorem magnitude_lt_iff {a b : UInt64} : magnitude a < magnitude b ↔ rank a < rank b := by
  rw [magnitude_eq, magnitude_eq, magnitudeAt_strictMono.lt_iff_lt]

theorem magnitude_inj {a b : UInt64} : magnitude a = magnitude b ↔ rank a = rank b := by
  rw [magnitude_eq, magnitude_eq, magnitudeAt_strictMono.injective.eq_iff]

/-! ## Rounding -/

section Distances
variable {x a b : ℚ}

theorem abs_sub_le_iff_of_lt (h : a < b) : |x - a| ≤ |x - b| ↔ 2 * x ≤ a + b := by
  rcases abs_cases (x - a) with ⟨ha, sa⟩ | ⟨ha, sa⟩ <;>
    rcases abs_cases (x - b) with ⟨hb, sb⟩ | ⟨hb, sb⟩ <;>
      (rw [ha, hb]; constructor <;> intro <;> linarith)

theorem abs_sub_le_iff_of_gt (h : a < b) : |x - b| ≤ |x - a| ↔ a + b ≤ 2 * x := by
  rcases abs_cases (x - a) with ⟨ha, sa⟩ | ⟨ha, sa⟩ <;>
    rcases abs_cases (x - b) with ⟨hb, sb⟩ | ⟨hb, sb⟩ <;>
      (rw [ha, hb]; constructor <;> intro <;> linarith)

/-- Two numbers are equally near to the middle between them, and to nothing else. -/
theorem abs_sub_eq_iff (h : a < b) : |x - a| = |x - b| ↔ 2 * x = a + b := by
  rw [le_antisymm_iff, abs_sub_le_iff_of_lt h, abs_sub_le_iff_of_gt h, ← le_antisymm_iff]

end Distances

/-- A number that rounds to two magnitudes would lie in the middle between two neighbours that both have
an even mantissa, but the mantissas of neighbours alternate. -/
theorem RoundsTo.not_lt {x : ℚ} {a b : UInt64} (ha : RoundsTo x a) (hb : RoundsTo x b)
    (number : IsNumber b) : ¬ magnitude a < magnitude b := by
  intro lt
  have ranks := magnitude_lt_iff.mp lt
  have top := (isNumber_iff b).mp number
  have aNumber : IsNumber a := (isNumber_iff a).mpr (by omega)
  -- both are nearest, so both are equally near and even
  have near : |x - magnitude a| = |x - magnitude b| :=
    le_antisymm (ha.nearest b number) (hb.nearest a aNumber)
  have middle := (abs_sub_eq_iff lt).mp near
  have aEven := ha.even b number lt.ne' near.symm
  have bEven := hb.even a aNumber lt.ne near
  rw [mantissa_eq, mantissaAt_mod_two] at aEven bEven
  -- the pattern after the first one is then no nearer than it
  have fits : rank a + 1 < 2 ^ 63 := by
    rw [topRank] at top
    omega
  have next := rank_ofNat fits
  have nextNumber : IsNumber (UInt64.ofNat (rank a + 1)) := by
    rw [isNumber_iff, next]
    omega
  have above : magnitude a < magnitude (UInt64.ofNat (rank a + 1)) := by
    rw [magnitude_lt_iff, next]
    omega
  have far := (abs_sub_le_iff_of_lt above).mp (ha.nearest _ nextNumber)
  have below : magnitude (UInt64.ofNat (rank a + 1)) < magnitude b := by
    rw [magnitude_lt_iff, next]
    omega
  linarith

/-- At most one magnitude is rounded to. -/
theorem RoundsTo.unique {x : ℚ} {a b : UInt64} (ha : RoundsTo x a) (hb : RoundsTo x b)
    (aNumber : IsNumber a) (bNumber : IsNumber b) : rank a = rank b := by
  rcases lt_trichotomy (magnitude a) (magnitude b) with lt | eq | gt
  · exact absurd lt (ha.not_lt hb bNumber)
  · exact magnitude_inj.mp eq
  · exact absurd gt (hb.not_lt ha aNumber)

/-- A magnitude rounds to itself. -/
theorem roundsTo_magnitude (bits : UInt64) : RoundsTo (magnitude bits) bits where
  nearest other _ := by
    rw [sub_self, abs_zero]
    exact abs_nonneg _
  even other _ ne h := by
    rw [sub_self, abs_zero, abs_eq_zero, sub_eq_zero] at h
    exact absurd h.symm ne

/-! ## The interval of a magnitude -/

/-- The number lies in the interval of the pattern, of which the ends count for an even mantissa. -/
structure InInterval (x : ℚ) (bits : UInt64) : Prop where
  low : (4 * mantissa bits - lowerQuarters bits) * 2 ^ (exponent bits - 2) ≤ x
  high : x ≤ (4 * mantissa bits + 2) * 2 ^ (exponent bits - 2)
  ends : (x = (4 * mantissa bits - lowerQuarters bits) * 2 ^ (exponent bits - 2) ∨
    x = (4 * mantissa bits + 2) * 2 ^ (exponent bits - 2)) → mantissa bits % 2 = 0

/-- The ends of the interval lie half way to the neighbours. -/
theorem interval_ends (bits : UInt64) :
    2 * ((4 * mantissa bits - lowerQuarters bits) * 2 ^ (exponent bits - 2)) =
      magnitude bits - lowerQuarters bits * 2 ^ (exponent bits - 1) + magnitude bits ∧
    2 * ((4 * mantissa bits + 2) * 2 ^ (exponent bits - 2)) =
      magnitude bits + (magnitude bits + 2 ^ exponent bits) := by
  have double (k : ℤ) : (2 : ℚ) ^ (k + 1) = 2 * 2 ^ k := by
    rw [zpow_add_one₀ two_ne_zero, mul_comm]
  have half : (2 : ℚ) ^ (exponent bits - 1) = 2 * 2 ^ (exponent bits - 2) := by
    rw [← double]
    ring_nf
  have unit : (2 : ℚ) ^ exponent bits = 2 * 2 ^ (exponent bits - 1) := by
    rw [← double, sub_add_cancel]
  rw [magnitude, unit, half]
  constructor <;> ring

theorem magnitude_above {bits other : UInt64} (h : magnitude bits < magnitude other) :
    magnitude bits + 2 ^ exponent bits ≤ magnitude other := by
  rw [magnitude_lt_iff] at h
  rw [magnitude_eq, magnitude_eq, exponent_eq]
  exact magnitudeAt_above h

theorem magnitude_below {bits other : UInt64} (h : magnitude other < magnitude bits) :
    magnitude other ≤ magnitude bits - lowerQuarters bits * 2 ^ (exponent bits - 1) := by
  rw [magnitude_lt_iff] at h
  rw [magnitude_eq, magnitude_eq, exponent_eq, lowerQuarters_eq]
  exact magnitudeAt_below h

/-- After a finite pattern comes another one. -/
theorem exists_next {bits : UInt64} (finite : isFinite bits = true) :
    ∃ other, IsNumber other ∧ magnitude other = magnitude bits + 2 ^ exponent bits := by
  have top := (isFinite_iff bits).mp finite
  have next : rank (UInt64.ofNat (rank bits + 1)) = rank bits + 1 := by
    rw [topRank] at top
    exact rank_ofNat (by omega)
  refine ⟨UInt64.ofNat (rank bits + 1), ?_, ?_⟩
  · rw [isNumber_iff, next]
    omega
  · rw [magnitude_eq, next, magnitudeAt_succ, magnitude_eq, exponent_eq]

/-- Before a finite pattern comes another one, unless it is zero. -/
theorem exists_previous {bits : UInt64} (finite : isFinite bits = true) (h : rank bits ≠ 0) :
    ∃ other, IsNumber other ∧
      magnitude other = magnitude bits - lowerQuarters bits * 2 ^ (exponent bits - 1) := by
  have top := (isFinite_iff bits).mp finite
  have below := rank_lt bits
  obtain ⟨k, hk⟩ : ∃ k, rank bits = k + 1 := ⟨rank bits - 1, by omega⟩
  have previous : rank (UInt64.ofNat k) = k := rank_ofNat (by omega)
  refine ⟨UInt64.ofNat k, ?_, ?_⟩
  · rw [isNumber_iff, previous]
    omega
  · rw [magnitude_eq, previous, magnitude_eq, exponent_eq, lowerQuarters_eq, hk, magnitudeAt_succ,
      ← unit_before, add_sub_cancel_right]

theorem InInterval.roundsTo {x : ℚ} {bits : UInt64} (h : InInterval x bits) : RoundsTo x bits := by
  obtain ⟨low, high⟩ := interval_ends bits
  have hlow := h.low
  have hhigh := h.high
  constructor
  · intro other _
    rcases lt_trichotomy (magnitude bits) (magnitude other) with lt | eq | gt
    · have := magnitude_above lt
      exact (abs_sub_le_iff_of_lt lt).mpr (by linarith)
    · rw [eq]
    · have := magnitude_below gt
      exact (abs_sub_le_iff_of_gt gt).mpr (by linarith)
  · intro other _ ne near
    rcases lt_or_gt_of_ne ne with lt | gt
    · have := magnitude_below lt
      have middle := (abs_sub_eq_iff lt).mp near
      exact h.ends (.inl (by linarith))
    · have := magnitude_above gt
      have middle := (abs_sub_eq_iff gt).mp near.symm
      exact h.ends (.inr (by linarith))

theorem RoundsTo.inInterval {x : ℚ} {bits : UInt64} (h : RoundsTo x bits)
    (finite : isFinite bits = true) (nonneg : 0 ≤ x) : InInterval x bits := by
  obtain ⟨low, high⟩ := interval_ends bits
  obtain ⟨next, number, above⟩ := exists_next finite
  have lt : magnitude bits < magnitude next := by
    rw [above]
    exact lt_add_of_pos_right _ (by positivity)
  have far := (abs_sub_le_iff_of_lt lt).mp (h.nearest next number)
  have upper : x ≤ (4 * mantissa bits + 2) * 2 ^ (exponent bits - 2) := by linarith
  have upperEnd : x = (4 * mantissa bits + 2) * 2 ^ (exponent bits - 2) → mantissa bits % 2 = 0 :=
    fun hx => h.even next number lt.ne' ((abs_sub_eq_iff lt).mpr (by linarith)).symm
  by_cases zero : rank bits = 0
  · -- below zero there is nothing to round to
    have mantissa_zero : mantissa bits = 0 := by
      rw [mantissa_eq, zero]
      rfl
    have quarters : lowerQuarters bits = 2 := by
      rw [lowerQuarters_eq, zero]
      rfl
    have negative : (4 * mantissa bits - lowerQuarters bits) * (2 : ℚ) ^ (exponent bits - 2) < 0 := by
      rw [mantissa_zero, quarters]
      refine mul_neg_of_neg_of_pos (by norm_num) (by positivity)
    exact ⟨by linarith, upper, fun hx => hx.elim (fun hx => by linarith) upperEnd⟩
  · obtain ⟨previous, number, below⟩ := exists_previous finite zero
    have lt : magnitude previous < magnitude bits := by
      rw [below]
      have quarters : 0 < lowerQuarters bits := by
        rw [lowerQuarters]
        split <;> decide
      exact sub_lt_self _ (by positivity)
    have near := (abs_sub_le_iff_of_gt lt).mp (h.nearest previous number)
    have lowerEnd : x = (4 * mantissa bits - lowerQuarters bits) * 2 ^ (exponent bits - 2) →
        mantissa bits % 2 = 0 :=
      fun hx => h.even previous number lt.ne ((abs_sub_eq_iff lt).mpr (by linarith))
    exact ⟨by linarith, upper, fun hx => hx.elim lowerEnd upperEnd⟩

theorem InInterval.convex {x y z : ℚ} {bits : UInt64} (hx : InInterval x bits)
    (hz : InInterval z bits) (hxy : x ≤ y) (hyz : y ≤ z) : InInterval y bits where
  low := hx.low.trans hxy
  high := hyz.trans hz.high
  ends
    | .inl h => hx.ends (.inl (le_antisymm (h ▸ hxy) hx.low))
    | .inr h => hz.ends (.inr (le_antisymm hz.high (h ▸ hyz)))

theorem inInterval_of_lt {x : ℚ} {bits : UInt64}
    (low : (4 * mantissa bits - lowerQuarters bits) * 2 ^ (exponent bits - 2) < x)
    (high : x < (4 * mantissa bits + 2) * 2 ^ (exponent bits - 2)) : InInterval x bits where
  low := low.le
  high := high.le
  ends h := h.elim (fun h => absurd h low.ne') (fun h => absurd h high.ne)

/-- What is less than a quarter of the last place below the magnitude is in its interval. -/
theorem inInterval_near {x : ℚ} {bits : UInt64} (low : magnitude bits - 2 ^ (exponent bits - 2) < x)
    (high : x ≤ magnitude bits) : InInterval x bits := by
  have unit : (0 : ℚ) < 2 ^ (exponent bits - 2) := by positivity
  have quarters : (1 : ℚ) ≤ lowerQuarters bits := by exact_mod_cast (lowerQuarters_bounds bits).1
  rw [magnitude_eq_quarters] at low high
  refine inInterval_of_lt (lt_of_le_of_lt ?_ low) (lt_of_le_of_lt high ?_)
  · rw [sub_mul]
    exact sub_le_sub_left (le_mul_of_one_le_left unit.le quarters) _
  · exact mul_lt_mul_of_pos_right (by linarith) unit

theorem inInterval_magnitude (bits : UInt64) : InInterval (magnitude bits) bits :=
  inInterval_near (sub_lt_self _ (by positivity)) le_rfl

/-- The interval of a magnitude that is not zero does not reach down to zero. -/
theorem InInterval.pos {x : ℚ} {bits : UInt64} (h : InInterval x bits) (ne : mantissa bits ≠ 0) :
    0 < x := by
  have one : (1 : ℚ) ≤ mantissa bits := by exact_mod_cast Nat.one_le_iff_ne_zero.mpr ne
  have quarters : (lowerQuarters bits : ℚ) ≤ 2 := by exact_mod_cast (lowerQuarters_bounds bits).2
  exact lt_of_lt_of_le (mul_pos (by linarith) (by positivity)) h.low

end Binary64
end SqliteSyntax
