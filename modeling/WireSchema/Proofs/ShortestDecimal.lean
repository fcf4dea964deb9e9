/-
Module: WireSchema.Proofs.ShortestDecimal
Purpose: The magnitude nearest to a decimal number depends on the value of that number alone,
  however its digits and its exponent are chosen (`BinaryFormat.ofDecimal_eq_of_value_eq`).  The
  shortest decimal number of a finite magnitude is nearest to that magnitude
  (`BinaryFormat.ofDecimal_shortest`).
Main exports: BinaryFormat.ofDecimal_eq_of_value_eq, BinaryFormat.ofDecimal_shortest
-/
import WireSchema.Proofs.NearestMagnitude

namespace WireSchema

/-- The number that a decimal number denotes. -/
def Decimal.value (decimal : Decimal) : ℚ :=
  decimal.digits * 10 ^ decimal.exponent

/-- Dropping zeros at the end leaves the number as it is. -/
theorem Decimal.value_normal (decimal : Decimal) : decimal.normal.value = decimal.value := by
  fun_induction Decimal.normal decimal with
  | case1 decimal trailing ih =>
      have tens : decimal.digits = 10 * (decimal.digits / 10) := by omega
      have split : (decimal.digits : ℚ) = 10 * (decimal.digits / 10 : Nat) := by
        exact_mod_cast tens
      rw [ih, Decimal.value, Decimal.value, split, zpow_add_one₀ (by norm_num)]
      ring
  | case2 => rfl

namespace BinaryFormat

/-- A power of ten is at least the same power of eight. -/
theorem two_zpow_le_ten_zpow {exponent : Int} (nonnegative : 0 ≤ exponent) :
    (2 : ℚ) ^ (3 * exponent) ≤ 10 ^ exponent := by
  obtain ⟨power, rfl⟩ := Int.eq_ofNat_of_zero_le nonnegative
  rw [zpow_mul, zpow_natCast, zpow_natCast]
  exact pow_le_pow_left₀ (by norm_num) (by norm_num) power

/-- A negative power of ten lies between the powers of sixteen and of eight. -/
theorem ten_zpow_bounds {exponent : Int} (negative : exponent < 0) :
    (2 : ℚ) ^ (4 * exponent) ≤ 10 ^ exponent ∧ (10 : ℚ) ^ exponent ≤ 2 ^ (3 * exponent) := by
  obtain ⟨power, isPower⟩ := Int.eq_ofNat_of_zero_le (a := -exponent) (by omega)
  have opposite : exponent = -(power : Int) := by omega
  subst opposite
  rw [zpow_mul, zpow_mul, zpow_neg, zpow_neg, zpow_neg, zpow_natCast, zpow_natCast, zpow_natCast]
  constructor
  · apply inv_anti₀ (by positivity)
    exact pow_le_pow_left₀ (by norm_num) (by norm_num) power
  · apply inv_anti₀ (by positivity)
    exact pow_le_pow_left₀ (by norm_num) (by norm_num) power

/-- The quotient that a decimal number is rounded as is its value. -/
theorem decimal_quotient (decimal : Decimal) :
    ((decimal.digits * (powerRatio 10 decimal.exponent).1 : Nat) : ℚ) /
      (powerRatio 10 decimal.exponent).2 = decimal.value := by
  rw [Nat.cast_mul, mul_div_assoc, powerRatio_quotient, Nat.cast_ofNat, Decimal.value]

/-- Whether the exponents of a format reach far beyond its fractions. -/
def Wide (format : BinaryFormat) : Prop :=
  format.fractionBits + 1 ≤ format.exponentCount / 2

theorem double_wide : double.Wide := by
  unfold Wide
  decide

/-- What a power of ten is at least, by the sign of its exponent. -/
theorem two_zpow_reach_le (exponent : Int) :
    (2 : ℚ) ^ (if exponent < 0 then 4 * exponent else 3 * exponent) ≤ 10 ^ exponent := by
  split
  · rename_i negative
    exact (ten_zpow_bounds negative).1
  · rename_i nonnegative
    exact two_zpow_le_ten_zpow (by omega)

/-- The shortcut for numbers close to zero agrees with rounding them. -/
theorem nearest_tiny {format : BinaryFormat} (wide : format.Wide) {decimal : Decimal}
    (negative : decimal.exponent < 0)
    (tiny : (decimal.digits.log2 : Int) + 1 + 3 * decimal.exponent < -format.exponentCount) :
    format.nearest (decimal.digits * (powerRatio 10 decimal.exponent).1)
      (powerRatio 10 decimal.exponent).2 = 0 := by
  have digits : (decimal.digits : ℚ) < 2 ^ ((decimal.digits.log2 : Int) + 1) := by
    exact_mod_cast Nat.lt_log2_self
  rw [Wide] at wide
  apply nearest_eq_zero format (powerRatio_pos (by decide) _).2
  calc ((decimal.digits * (powerRatio 10 decimal.exponent).1 : Nat) : ℚ) /
        (powerRatio 10 decimal.exponent).2 = decimal.value := decimal_quotient decimal
    _ ≤ decimal.digits * 2 ^ (3 * decimal.exponent) := by
      rw [Decimal.value]
      gcongr
      exact (ten_zpow_bounds negative).2
    _ < 2 ^ ((decimal.digits.log2 : Int) + 1) * 2 ^ (3 * decimal.exponent) := by gcongr
    _ = 2 ^ ((decimal.digits.log2 : Int) + 1 + 3 * decimal.exponent) :=
      (zpow_add₀ two_ne_zero _ _).symm
    _ ≤ 2 ^ (format.leastExponent - 1) := by
      apply zpow_le_zpow_right₀ (by norm_num)
      rw [leastExponent]
      omega

/-- The shortcut for numbers beyond all finite ones agrees with rounding them. -/
theorem nearest_huge {format : BinaryFormat} (wide : format.Wide) {decimal : Decimal}
    (notZero : decimal.digits ≠ 0)
    (huge : format.exponentCount < (decimal.digits.log2 : Int) +
      if decimal.exponent < 0 then 4 * decimal.exponent else 3 * decimal.exponent) :
    format.nearest (decimal.digits * (powerRatio 10 decimal.exponent).1)
      (powerRatio 10 decimal.exponent).2 = format.infinity := by
  have digits : (2 : ℚ) ^ (decimal.digits.log2 : Int) ≤ decimal.digits := by
    exact_mod_cast Nat.log2_self_le notZero
  have power := two_zpow_reach_le decimal.exponent
  rw [Wide] at wide
  apply nearest_eq_infinity format (powerRatio_pos (by decide) _).2
  rw [decimal_quotient, Decimal.value]
  generalize (if decimal.exponent < 0 then 4 * decimal.exponent else 3 * decimal.exponent) =
    reach at huge power
  calc (2 : ℚ) ^ (format.leastExponent + format.exponentCount + format.fractionBits)
      ≤ 2 ^ ((decimal.digits.log2 : Int) + reach) := by
        apply zpow_le_zpow_right₀ (by norm_num)
        rw [leastExponent]
        omega
    _ = 2 ^ (decimal.digits.log2 : Int) * 2 ^ reach := zpow_add₀ two_ne_zero _ _
    _ ≤ decimal.digits * 10 ^ decimal.exponent := by gcongr

/-- The two shortcuts for numbers far outside the range of a format agree with rounding them. -/
theorem ofDecimal_eq_nearest {format : BinaryFormat} (wide : format.Wide) (decimal : Decimal) :
    format.ofDecimal decimal =
      format.nearest (decimal.digits * (powerRatio 10 decimal.exponent).1)
        (powerRatio 10 decimal.exponent).2 := by
  unfold ofDecimal
  by_cases small : decimal.digits = 0 ∨ (decimal.exponent < 0 ∧
      (decimal.digits.log2 : Int) + 1 + 3 * decimal.exponent < -format.exponentCount)
  · rw [if_pos small]
    rcases small with zero | ⟨negative, tiny⟩
    · simp [zero, nearest]
    · exact (nearest_tiny wide negative tiny).symm
  · rw [if_neg small]
    by_cases huge : (format.exponentCount : Int) < (decimal.digits.log2 : Int) +
        if decimal.exponent < 0 then 4 * decimal.exponent else 3 * decimal.exponent
    · rw [if_pos huge, nearest_huge wide (fun zero => small (.inl zero)) huge]
    · rw [if_neg huge]

/-- The magnitude nearest to a decimal number depends on its value alone. -/
theorem ofDecimal_eq_of_value_eq {format : BinaryFormat} (wide : format.Wide)
    {first second : Decimal} (same : first.value = second.value) :
    format.ofDecimal first = format.ofDecimal second := by
  rw [ofDecimal_eq_nearest wide, ofDecimal_eq_nearest wide]
  apply nearest_eq_of_quotient_eq format
  · exact (powerRatio_pos (by decide) first.exponent).2
  · exact (powerRatio_pos (by decide) second.exponent).2
  · rw [decimal_quotient, decimal_quotient, same]

/-- The value of a finite magnitude with every digit written. -/
theorem value_exactDecimal (format : BinaryFormat) (magnitude : Nat) :
    (format.exactDecimal magnitude).value =
      ((format.ratio magnitude).1 : ℚ) / (format.ratio magnitude).2 := by
  simp only [ratio, exactDecimal]
  generalize format.unpack magnitude = parts
  obtain ⟨significand, exponent⟩ := parts
  rw [Nat.cast_mul, mul_div_assoc, powerRatio_quotient]
  split
  · rename_i nonnegative
    obtain ⟨power, rfl⟩ := Int.eq_ofNat_of_zero_le nonnegative
    simp [Decimal.value]
  · rename_i negative
    obtain ⟨power, isPower⟩ := Int.eq_ofNat_of_zero_le (a := -exponent) (by omega)
    have opposite : exponent = -(power : Int) := by omega
    subst opposite
    have ten : (10 : ℚ) = 2 * 5 := by norm_num
    have five : (5 : ℚ) ^ power ≠ 0 := by positivity
    simp only [Decimal.value, neg_neg, Int.toNat_natCast, Nat.pow_eq, Nat.cast_mul, Nat.cast_pow,
      Nat.cast_ofNat, zpow_neg, zpow_natCast]
    rw [ten, mul_pow, mul_inv, mul_assoc, mul_comm ((5 : ℚ) ^ power), mul_assoc,
      inv_mul_cancel₀ five, mul_one]

/-- A neighbour on a grid is taken only if it is nearest to the magnitude. -/
theorem ofDecimal_gridNeighbour {format : BinaryFormat}
    {magnitude numerator denominator : Nat} {exponent : Int} {decimal : Decimal}
    (taken : format.gridNeighbour magnitude numerator denominator exponent = some decimal) :
    format.ofDecimal decimal = magnitude := by
  simp only [gridNeighbour] at taken
  split at taken
  · rename_i below
    split at taken
    · rename_i above
      cases taken
      exact above.1
    · cases taken
      exact below
  · split at taken
    · rename_i above
      cases taken
      exact above
    · cases taken

/-- The shortest decimal number of a finite magnitude is nearest to it. -/
theorem ofDecimal_shortest {format : BinaryFormat} (wide : format.Wide) {magnitude : Nat}
    (finite : magnitude < format.infinity) :
    format.ofDecimal (format.shortest magnitude) = magnitude := by
  have exact : format.ofDecimal (format.exactDecimal magnitude) = magnitude := by
    rw [ofDecimal_eq_nearest wide, ← format.nearest_ratio finite]
    apply nearest_eq_of_quotient_eq format
    · exact (powerRatio_pos (by decide) _).2
    · exact (powerRatio_pos Nat.two_pos _).2
    · rw [decimal_quotient, value_exactDecimal, format.nearest_ratio finite]
  simp only [shortest]
  rw [ofDecimal_eq_of_value_eq wide (Decimal.value_normal _)]
  generalize found : List.findSome? _ _ = neighbour
  cases neighbour with
  | none => exact exact
  | some decimal =>
      obtain ⟨count, _, taken⟩ := List.exists_of_findSome?_eq_some found
      exact ofDecimal_gridNeighbour taken

end BinaryFormat

end WireSchema
