/-
Module: WireSchema.Proofs.NearestMagnitude
Purpose: `BinaryFormat.nearest` takes a numerator and a denominator and looks at each of them.  The
  result is nevertheless a matter of their quotient (`BinaryFormat.nearest_eq_of_quotient_eq`), and
  the quotient that a finite magnitude denotes is rounded to that magnitude
  (`BinaryFormat.nearest_ratio`).
Main exports: BinaryFormat.nearest_eq_of_quotient_eq, BinaryFormat.nearest_ratio
-/
import Mathlib.Algebra.Order.Archimedean.Basic
import Mathlib.Algebra.Order.Field.Power
import Mathlib.Algebra.Order.Field.Rat
import Mathlib.Data.Int.Log
import Mathlib.Tactic.FieldSimp
import Mathlib.Tactic.Linarith
import Mathlib.Tactic.Positivity
import WireSchema.Number.Decimal

namespace WireSchema.BinaryFormat

theorem powerRatio_pos {base : Nat} (positive : 0 < base) (exponent : Int) :
    0 < (powerRatio base exponent).1 ∧ 0 < (powerRatio base exponent).2 := by
  unfold powerRatio
  split
  · exact ⟨Nat.pow_pos positive, Nat.one_pos⟩
  · exact ⟨Nat.one_pos, Nat.pow_pos positive⟩

/-- The quotient of a power is the power. -/
theorem powerRatio_quotient (base : Nat) (exponent : Int) :
    ((powerRatio base exponent).1 : ℚ) / (powerRatio base exponent).2 = (base : ℚ) ^ exponent := by
  unfold powerRatio
  split
  · rename_i nonnegative
    obtain ⟨power, rfl⟩ := Int.eq_ofNat_of_zero_le nonnegative
    simp
  · rename_i negative
    obtain ⟨power, isPower⟩ := Int.eq_ofNat_of_zero_le (a := -exponent) (by omega)
    have opposite : exponent = -(power : Int) := by omega
    subst opposite
    simp

/-- The sizes of two numbers settle the size of their quotient but for one place. -/
theorem log2_quotient {numerator denominator : Nat} (positive : 0 < numerator)
    (proper : 0 < denominator) :
    (2 : ℚ) ^ ((numerator.log2 : Int) - denominator.log2 - 1) ≤ (numerator : ℚ) / denominator ∧
      (numerator : ℚ) / denominator < 2 ^ ((numerator.log2 : Int) - denominator.log2 + 1) := by
  have two : (2 : ℚ) ≠ 0 := by norm_num
  have denominatorPositive : (0 : ℚ) < denominator := by exact_mod_cast proper
  have numeratorLow : (2 : ℚ) ^ numerator.log2 ≤ numerator := by
    exact_mod_cast Nat.log2_self_le positive.ne'
  have numeratorHigh : (numerator : ℚ) < 2 ^ (numerator.log2 + 1) := by
    exact_mod_cast Nat.lt_log2_self
  have denominatorLow : (2 : ℚ) ^ denominator.log2 ≤ denominator := by
    exact_mod_cast Nat.log2_self_le proper.ne'
  have denominatorHigh : (denominator : ℚ) < 2 ^ (denominator.log2 + 1) := by
    exact_mod_cast Nat.lt_log2_self
  rw [le_div_iff₀ denominatorPositive, div_lt_iff₀ denominatorPositive]
  constructor
  · calc (2 : ℚ) ^ ((numerator.log2 : Int) - denominator.log2 - 1) * denominator
        ≤ 2 ^ ((numerator.log2 : Int) - denominator.log2 - 1) * 2 ^ (denominator.log2 + 1) := by
          gcongr
      _ = 2 ^ numerator.log2 := by
          rw [← zpow_natCast, ← zpow_natCast, ← zpow_add₀ two]
          congr 1
          push_cast
          omega
      _ ≤ numerator := numeratorLow
  · calc (numerator : ℚ) < 2 ^ (numerator.log2 + 1) := numeratorHigh
      _ = 2 ^ ((numerator.log2 : Int) - denominator.log2 + 1) * 2 ^ denominator.log2 := by
          rw [← zpow_natCast, ← zpow_natCast, ← zpow_add₀ two]
          congr 1
          push_cast
          omega
      _ ≤ 2 ^ ((numerator.log2 : Int) - denominator.log2 + 1) * denominator := by gcongr

/-- Comparing whole numbers compares a power with a quotient. -/
theorem mul_powerRatio_le_iff {base : Nat} (positive : 0 < base) (exponent : Int)
    (numerator : Nat) {denominator : Nat} (proper : 0 < denominator) :
    denominator * (powerRatio base exponent).1 ≤ numerator * (powerRatio base exponent).2 ↔
      (base : ℚ) ^ exponent ≤ (numerator : ℚ) / denominator := by
  have denominatorPositive : (0 : ℚ) < denominator := by exact_mod_cast proper
  have downPositive : (0 : ℚ) < (powerRatio base exponent).2 := by
    exact_mod_cast (powerRatio_pos positive exponent).2
  rw [← powerRatio_quotient, div_le_div_iff₀ downPositive denominatorPositive, mul_comm denominator]
  exact_mod_cast Iff.rfl

/-- The exponent found for a quotient is the logarithm. -/
theorem floorLog2_eq_log {numerator denominator : Nat} (positive : 0 < numerator)
    (proper : 0 < denominator) :
    floorLog2 numerator denominator = Int.log 2 ((numerator : ℚ) / denominator) := by
  have quotientPositive : (0 : ℚ) < (numerator : ℚ) / denominator := by positivity
  obtain ⟨below, above⟩ := log2_quotient positive proper
  have decided := mul_powerRatio_le_iff Nat.two_pos ((numerator.log2 : Int) - denominator.log2)
    numerator proper
  have asLog := fun exponent : Int =>
    Int.zpow_le_iff_le_log (R := ℚ) Nat.one_lt_two (x := exponent) quotientPositive
  have asLogBelow := fun exponent : Int =>
    Int.lt_zpow_iff_log_lt (R := ℚ) Nat.one_lt_two (x := exponent) quotientPositive
  rw [asLog] at decided
  rw [Nat.cast_ofNat] at asLog asLogBelow
  rw [asLog] at below
  rw [asLogBelow] at above
  unfold floorLog2
  simp only [decided]
  split <;> omega

/-- A common factor does not count. -/
theorem roundQuotient_mul_left {factor : Nat} (positive : 0 < factor)
    (numerator denominator : Nat) :
    roundQuotient (factor * numerator) (factor * denominator) =
      roundQuotient numerator denominator := by
  have regroup : 2 * (factor * (numerator % denominator)) =
      factor * (2 * (numerator % denominator)) := by
    rw [Nat.mul_left_comm]
  simp only [roundQuotient, Nat.mul_div_mul_left _ _ positive, Nat.mul_mod_mul_left, regroup,
    Nat.mul_lt_mul_left positive, Nat.mul_right_inj positive.ne']

/-- A whole number is its own rounding. -/
theorem roundQuotient_mul_self {denominator : Nat} (proper : 0 < denominator) (quotient : Nat) :
    roundQuotient (quotient * denominator) denominator = quotient := by
  simp [roundQuotient, Nat.mul_div_cancel _ proper, proper]

theorem nearest_mul_left (format : BinaryFormat) {factor : Nat} (positive : 0 < factor)
    (numerator : Nat) {denominator : Nat} (proper : 0 < denominator) :
    format.nearest (factor * numerator) (factor * denominator) =
      format.nearest numerator denominator := by
  rcases Nat.eq_zero_or_pos numerator with rfl | numeratorPositive
  · simp [nearest]
  have factorPositive : (factor : ℚ) ≠ 0 := by exact_mod_cast positive.ne'
  have sameLog : floorLog2 (factor * numerator) (factor * denominator) =
      floorLog2 numerator denominator := by
    rw [floorLog2_eq_log (Nat.mul_pos positive numeratorPositive) (Nat.mul_pos positive proper),
      floorLog2_eq_log numeratorPositive proper]
    push_cast
    rw [mul_div_mul_left _ _ factorPositive]
  have notZero : factor * numerator ≠ 0 := (Nat.mul_pos positive numeratorPositive).ne'
  simp only [nearest, sameLog, if_neg notZero, if_neg numeratorPositive.ne', Nat.mul_assoc,
    roundQuotient_mul_left positive]

/-- Equal quotients have the same nearest magnitude. -/
theorem nearest_eq_of_quotient_eq (format : BinaryFormat)
    {numerator denominator otherNumerator otherDenominator : Nat} (proper : 0 < denominator)
    (otherProper : 0 < otherDenominator)
    (same : (numerator : ℚ) / denominator = (otherNumerator : ℚ) / otherDenominator) :
    format.nearest numerator denominator = format.nearest otherNumerator otherDenominator := by
  have denominatorNeZero : (denominator : ℚ) ≠ 0 := by exact_mod_cast proper.ne'
  have otherNeZero : (otherDenominator : ℚ) ≠ 0 := by exact_mod_cast otherProper.ne'
  rw [div_eq_div_iff denominatorNeZero otherNeZero] at same
  have crossed : numerator * otherDenominator = otherNumerator * denominator := by
    exact_mod_cast same
  rw [← nearest_mul_left format otherProper numerator proper,
    ← nearest_mul_left format proper otherNumerator otherProper, Nat.mul_comm otherDenominator,
    crossed, Nat.mul_comm otherNumerator, Nat.mul_comm otherDenominator]

/-! ### Quotients of the format -/

/-- The magnitude nearest to a quotient when the grid is known. -/
theorem nearest_of_grid (format : BinaryFormat) {numerator denominator : Nat} {exponent : Int}
    (positive : 0 < numerator) (proper : 0 < denominator)
    (grid : max (Int.log 2 ((numerator : ℚ) / denominator) - format.fractionBits)
      format.leastExponent = exponent) :
    format.nearest numerator denominator =
      min ((exponent - format.leastExponent).toNat * format.fractionCount +
        roundQuotient (numerator * (powerRatio 2 exponent).2)
          (denominator * (powerRatio 2 exponent).1)) format.infinity := by
  simp only [nearest, if_neg positive.ne', floorLog2_eq_log positive proper, grid]

/-- A multiple of the unit of its grid is rounded to itself. -/
theorem nearest_multiple (format : BinaryFormat) {significand : Nat} {exponent : Int}
    (positive : 0 < significand)
    (grid : max ((significand.log2 : Int) + exponent - format.fractionBits) format.leastExponent =
      exponent) :
    format.nearest (significand * (powerRatio 2 exponent).1) (powerRatio 2 exponent).2 =
      min ((exponent - format.leastExponent).toNat * format.fractionCount + significand)
        format.infinity := by
  obtain ⟨upPositive, downPositive⟩ := powerRatio_pos Nat.two_pos exponent
  have value : ((significand * (powerRatio 2 exponent).1 : Nat) : ℚ) / (powerRatio 2 exponent).2 =
      significand * 2 ^ exponent := by
    rw [Nat.cast_mul, mul_div_assoc, powerRatio_quotient, Nat.cast_ofNat]
  have valuePositive : (0 : ℚ) < significand * 2 ^ exponent := by positivity
  have low : (2 : ℚ) ^ ((significand.log2 : Int) + exponent) ≤ significand * 2 ^ exponent := by
    rw [zpow_add₀ two_ne_zero, zpow_natCast]
    gcongr
    exact_mod_cast Nat.log2_self_le positive.ne'
  have high : (significand : ℚ) * 2 ^ exponent <
      2 ^ ((significand.log2 : Int) + exponent + 1) := by
    rw [add_right_comm, zpow_add₀ two_ne_zero]
    gcongr
    exact_mod_cast Nat.lt_log2_self
  have log : Int.log 2 ((significand : ℚ) * 2 ^ exponent) = significand.log2 + exponent := by
    have atLeast := (Int.zpow_le_iff_le_log Nat.one_lt_two valuePositive).mp
      (by rw [Nat.cast_ofNat]; exact low)
    have lessThan := (Int.lt_zpow_iff_log_lt Nat.one_lt_two valuePositive).mp
      (by rw [Nat.cast_ofNat]; exact high)
    omega
  rw [nearest_of_grid format (Nat.mul_pos positive upPositive) downPositive
    (by rw [value, log, grid]), Nat.mul_assoc, Nat.mul_comm (powerRatio 2 exponent).2,
    roundQuotient_mul_self (Nat.mul_pos upPositive downPositive)]

theorem fractionCount_eq (format : BinaryFormat) :
    format.fractionCount = 2 ^ format.fractionBits := rfl

/-- Every finite magnitude is the nearest one to the quotient that it denotes. -/
theorem nearest_ratio (format : BinaryFormat) {magnitude : Nat}
    (finite : magnitude < format.infinity) :
    format.nearest (format.ratio magnitude).1 (format.ratio magnitude).2 = magnitude := by
  have countPositive : 0 < format.fractionCount := Nat.pow_pos Nat.two_pos
  have parts : format.fractionCount * (magnitude / format.fractionCount) +
      magnitude % format.fractionCount = magnitude := Nat.div_add_mod magnitude _
  have fractionSmall := Nat.mod_lt magnitude countPositive
  simp only [ratio, unpack]
  split
  · -- on the finest grid, where the fraction stands alone
    rename_i lowest
    rw [lowest, Nat.mul_zero, Nat.zero_add] at parts
    rw [parts] at fractionSmall ⊢
    rcases Nat.eq_zero_or_pos magnitude with rfl | positive
    · simp [nearest]
    have sized : magnitude.log2 < format.fractionBits :=
      (Nat.log2_lt positive.ne').mpr fractionSmall
    rw [nearest_multiple format positive (by omega), Int.sub_self, Int.toNat_zero, Nat.zero_mul,
      Nat.zero_add, Nat.min_eq_left finite.le]
  · -- on a coarser grid, where the leading bit is implied
    rename_i notLowest
    have sized : (magnitude % format.fractionCount + format.fractionCount).log2 =
        format.fractionBits := by
      rw [Nat.log2_eq_iff (by omega)]
      rw [fractionCount_eq] at fractionSmall ⊢
      omega
    obtain ⟨before, isSucc⟩ := Nat.exists_eq_succ_of_ne_zero notLowest
    rw [isSucc, Nat.mul_comm, Nat.succ_mul] at parts
    rw [isSucc]
    have steps : (format.leastExponent + (before.succ : Nat) - 1 -
        format.leastExponent).toNat = before := by omega
    have carried : before * format.fractionCount +
        (magnitude % format.fractionCount + format.fractionCount) = magnitude := by omega
    rw [nearest_multiple format (by omega) (by rw [sized]; omega), steps, carried,
      Nat.min_eq_left finite.le]

/-! ### Quotients outside the format -/

/-- Less than half of the finest unit is rounded to zero. -/
theorem nearest_eq_zero (format : BinaryFormat) {numerator denominator : Nat}
    (proper : 0 < denominator)
    (small : (numerator : ℚ) / denominator < 2 ^ (format.leastExponent - 1)) :
    format.nearest numerator denominator = 0 := by
  rcases Nat.eq_zero_or_pos numerator with rfl | positive
  · simp [nearest]
  have quotientPositive : (0 : ℚ) < (numerator : ℚ) / denominator := by positivity
  have log := (Int.lt_zpow_iff_log_lt Nat.one_lt_two quotientPositive).mp
    (by rw [Nat.cast_ofNat]; exact small)
  obtain ⟨upPositive, downPositive⟩ := powerRatio_pos Nat.two_pos format.leastExponent
  have half : 2 * (numerator * (powerRatio 2 format.leastExponent).2) <
      denominator * (powerRatio 2 format.leastExponent).1 := by
    have upPositive : (0 : ℚ) < (powerRatio 2 format.leastExponent).1 := by
      exact_mod_cast upPositive
    have downPositive : (0 : ℚ) < (powerRatio 2 format.leastExponent).2 := by
      exact_mod_cast downPositive
    have denominatorPositive : (0 : ℚ) < denominator := by exact_mod_cast proper
    have unit := powerRatio_quotient 2 format.leastExponent
    rw [zpow_sub_one₀ two_ne_zero, ← Nat.cast_ofNat (n := 2), ← unit, Nat.cast_ofNat,
      ← div_eq_mul_inv, div_div, div_lt_div_iff₀ denominatorPositive (by positivity)] at small
    have cleared : (2 : ℚ) * (numerator * (powerRatio 2 format.leastExponent).2) <
        denominator * (powerRatio 2 format.leastExponent).1 := by linarith
    exact_mod_cast cleared
  have quotient : numerator * (powerRatio 2 format.leastExponent).2 /
      (denominator * (powerRatio 2 format.leastExponent).1) = 0 := Nat.div_eq_of_lt (by omega)
  have remainder : numerator * (powerRatio 2 format.leastExponent).2 %
      (denominator * (powerRatio 2 format.leastExponent).1) =
      numerator * (powerRatio 2 format.leastExponent).2 := Nat.mod_eq_of_lt (by omega)
  have grid : max (Int.log 2 ((numerator : ℚ) / denominator) - format.fractionBits)
      format.leastExponent = format.leastExponent := by omega
  rw [nearest_of_grid format positive proper grid]
  simp [roundQuotient, quotient, remainder, half]

/-- A quotient beyond the last grid is rounded to infinity. -/
theorem nearest_eq_infinity (format : BinaryFormat) {numerator denominator : Nat}
    (proper : 0 < denominator)
    (large : (2 : ℚ) ^ (format.leastExponent + format.exponentCount + format.fractionBits) ≤
      (numerator : ℚ) / denominator) :
    format.nearest numerator denominator = format.infinity := by
  have quotientPositive : (0 : ℚ) < (numerator : ℚ) / denominator := by
    refine lt_of_lt_of_le ?_ large
    positivity
  have positive : 0 < numerator := by
    rcases Nat.eq_zero_or_pos numerator with rfl | positive
    · simp at quotientPositive
    · exact positive
  have log := (Int.zpow_le_iff_le_log Nat.one_lt_two quotientPositive).mp
    (by rw [Nat.cast_ofNat]; exact large)
  rw [nearest_of_grid format positive proper rfl]
  apply Nat.min_eq_right
  apply Nat.le_add_right_of_le
  exact Nat.mul_le_mul_right _ (by omega)

end WireSchema.BinaryFormat
