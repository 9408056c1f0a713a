import Mathlib.Algebra.Order.Group.Unbundled.Abs
import Mathlib.Algebra.Order.Ring.Int
import Mathlib.Tactic.Linarith

namespace RadminPro.NearestDivision

/-!
# Division to the nearest integer

A quotient of integers is rounded to a nearest integer; at a tie there are two.
Scaling a number up or down this way and back gives the number again exactly
when it was not moved too far.
-/

/-- `quotient` is an integer nearest to `numerator / divisor`. -/
def IsNearest (numerator divisor quotient : Int) : Prop :=
  2 * |quotient * divisor - numerator| ≤ divisor

/-- The nearest integer; the upper one at a tie. -/
def nearest (numerator divisor : Int) : Int :=
  (2 * numerator + divisor) / (2 * divisor)

/-- How far a number is from a multiple of the step. -/
def gap (value step : Int) : Int :=
  min (value % step) (step - value % step)

variable {numerator divisor quotient : Int}

theorem nearest_eq_iff
    (positive : 0 < divisor) :
    nearest numerator divisor = quotient ↔
      -divisor ≤ 2 * (numerator - quotient * divisor) ∧
        2 * (numerator - quotient * divisor) < divisor := by
  have regrouped : quotient * (2 * divisor) = 2 * (quotient * divisor) :=
    mul_left_comm quotient 2 divisor
  rw [nearest, Int.ediv_eq_iff_of_pos (by omega), regrouped]
  constructor
  · intro between
    omega
  · intro between
    omega

/-- A distance without its absolute value. -/
theorem two_mul_abs_le_iff
    {distance : Int}
    {bound : Int} :
    2 * |distance| ≤ bound ↔ -bound ≤ 2 * distance ∧ 2 * distance ≤ bound := by
  constructor
  · intro near
    have below := neg_abs_le distance
    have above := le_abs_self distance
    constructor
    · omega
    · omega
  · intro between
    rcases abs_cases distance with ⟨same, _⟩ | ⟨opposite, _⟩
    · omega
    · omega

theorem isNearest_nearest
    (numerator : Int)
    (positive : 0 < divisor) :
    IsNearest numerator divisor (nearest numerator divisor) := by
  have between :
      -divisor ≤ 2 * (numerator - nearest numerator divisor * divisor) ∧
        2 * (numerator - nearest numerator divisor * divisor) < divisor :=
    (nearest_eq_iff positive).mp rfl
  rw [IsNearest, abs_sub_comm]
  exact two_mul_abs_le_iff.mpr ⟨between.1, between.2.le⟩

/-- A nearest multiple is as far away as the gap says. -/
theorem IsNearest.distance
    (isNearest : IsNearest numerator divisor quotient)
    (positive : 0 < divisor) :
    |quotient * divisor - numerator| = gap numerator divisor := by
  have nonneg : 0 ≤ numerator % divisor :=
    Int.emod_nonneg numerator positive.ne'
  have small : numerator % divisor < divisor :=
    Int.emod_lt_of_pos numerator positive
  obtain ⟨steps, isSteps⟩ :
      ∃ steps, quotient = numerator / divisor + steps :=
    ⟨quotient - numerator / divisor, by omega⟩
  have apart :
      quotient * divisor - numerator =
        steps * divisor - numerator % divisor := by
    have split := Int.ediv_mul_add_emod numerator divisor
    rw [isSteps, Int.add_mul]
    omega
  rw [IsNearest, apart] at isNearest
  rw [apart]
  have between := two_mul_abs_le_iff.mp isNearest
  -- The quotient is the one below or the one after it.
  have lower : 0 ≤ steps := by
    by_contra negative
    have less : steps * divisor ≤ -1 * divisor :=
      Int.mul_le_mul_of_nonneg_right (by omega) positive.le
    omega
  have upper : steps ≤ 1 := by
    by_contra many
    have more : 2 * divisor ≤ steps * divisor :=
      Int.mul_le_mul_of_nonneg_right (by omega) positive.le
    omega
  rcases (by omega : steps = 0 ∨ steps = 1) with rfl | rfl
  · rw [zero_mul, zero_sub, abs_neg, abs_of_nonneg nonneg, gap, min_eq_left]
    omega
  · rw [one_mul, abs_of_pos (by omega), gap, min_eq_right]
    omega

/-- There is no tie at an odd divisor. -/
theorem nearest_eq_iff_of_odd
    (positive : 0 < divisor)
    (odd : divisor % 2 = 1) :
    nearest numerator divisor = quotient ↔
      2 * |numerator - quotient * divisor| < divisor := by
  rw [nearest_eq_iff positive]
  generalize numerator - quotient * divisor = distance
  constructor
  · intro between
    rcases abs_cases distance with ⟨same, _⟩ | ⟨opposite, _⟩
    · omega
    · omega
  · intro near
    have between := two_mul_abs_le_iff.mp near.le
    have above := le_abs_self distance
    exact ⟨between.1, by omega⟩

/--
Scaled from one range to another and back to the nearest integers, a number is
itself again exactly when it lies close to a point of the other range.
-/
theorem nearest_back_iff
    {value range other scaled : Int}
    (isNearest : IsNearest (value * range) other scaled)
    (positive : 0 < other)
    (odd : range % 2 = 1)
    (rangePositive : 0 < range) :
    nearest (scaled * other) range = value ↔
      2 * gap (value * range) other < range := by
  rw [nearest_eq_iff_of_odd rangePositive odd, isNearest.distance positive]

end RadminPro.NearestDivision
