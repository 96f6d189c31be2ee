import Mathlib.Algebra.Order.Field.Rat
import Mathlib.Tactic.FieldSimp
import OrderWatch.Proofs.Decimal.Exact
import OrderWatch.Proofs.Decimal.Quotient

/-
  The numbers that decimals stand for.

  A decimal stands for a fraction, and decimals are ordered
  like the fractions.  Whole numbers tell whether a decimal
  exceeds a quotient of two others, and so what is known of
  rounded quotients is carried over: a quotient that lies
  between two decimals does so when it is rounded.

  Main declarations:
    * `Decimal.value`
    * `Decimal.value_le_iff`, `Decimal.value_pos_iff`
    * `Decimal.AddsExactly.value_eq`
    * `Decimal.div_between`
-/

namespace OrderWatch

namespace Decimal

variable {a b c d : Decimal}

------------------------------------------------------------
-- Values
------------------------------------------------------------

/- The number that a decimal stands for. -/
def value (d : Decimal) : ℚ :=
  d.signed / 10 ^ d.scale

theorem value_eq_units
    (d : Decimal) :
    d.value = d.units / 10 ^ maxScale := by
  have hSplit :
      (10 : ℚ) ^ maxScale =
        10 ^ (maxScale - d.scale) * 10 ^ d.scale :=
    (pow_sub_mul_pow 10 d.scale_le).symm
  unfold value units
  push_cast
  rw [hSplit, mul_comm (d.signed : ℚ),
    mul_div_mul_left _ _ (by positivity)]

theorem value_le_iff
    (a b : Decimal) :
    a.value ≤ b.value ↔ a ≤ b := by
  rw [value_eq_units, value_eq_units,
    div_le_div_iff_of_pos_right (by positivity), Int.cast_le]
  exact Iff.rfl

/- A price times an amount, and another amount, in units. -/
theorem mul_value_eq
    (a b : Decimal) :
    a.value * b.value =
      (a.units * b.units : Int) /
        (10 ^ maxScale * 10 ^ maxScale) := by
  rw [value_eq_units, value_eq_units, div_mul_div_comm]
  push_cast
  rfl

theorem value_eq_mul
    (d : Decimal) :
    d.value =
      (d.units * 10 ^ maxScale : Int) /
        (10 ^ maxScale * 10 ^ maxScale) := by
  rw [value_eq_units]
  push_cast
  rw [mul_div_mul_right _ _ (by positivity)]

theorem value_zero :
    zero.value = 0 := by
  simp [value, zero, signed]

theorem value_nonneg_iff
    (d : Decimal) :
    0 ≤ d.value ↔ .zero ≤ d := by
  rw [← value_zero, value_le_iff]

theorem value_pos_iff
    (d : Decimal) :
    0 < d.value ↔ d.isPositive = true := by
  rw [isPositive_iff, value_eq_units,
    div_pos_iff_of_pos_right (by positivity), Int.cast_pos]

/- A sum without a loss of digits is the sum of the values. -/
theorem AddsExactly.value_eq
    (hExact : a.AddsExactly b)
    (hSum : add a b = some c) :
    c.value = a.value + b.value := by
  rw [value_eq_units, value_eq_units, value_eq_units,
    hExact c hSum, Int.cast_add, add_div]

/- What is not below zero has no minus sign. -/
theorem negative_of_nonneg
    (hNonneg : 0 ≤ d.value) :
    d.negative = false := by
  by_contra hSigned
  have hNegative : d.negative = true := by simpa using hSigned
  have hMantissa : d.mantissa ≠ 0 := by
    intro hZero
    rw [d.zero_unsigned hZero] at hNegative
    contradiction
  have hAbove : (0 : ℚ) < d.mantissa :=
    Nat.cast_pos.mpr (Nat.pos_of_ne_zero hMantissa)
  have hBelow : d.value < 0 := by
    unfold value signed
    rw [if_pos hNegative]
    apply div_neg_of_neg_of_pos _ (by positivity)
    push_cast
    linarith
  exact absurd hNonneg (not_le.mpr hBelow)

theorem value_of_nonneg
    (hNonneg : 0 ≤ d.value) :
    d.value = d.mantissa / 10 ^ d.scale := by
  have hSign := negative_of_nonneg hNonneg
  unfold value signed
  rw [hSign]
  simp

------------------------------------------------------------
-- Comparing with a quotient
------------------------------------------------------------

/-
  Times a common multiple of the denominators both sides of a
  comparison with a quotient are whole numbers.
-/
theorem value_mul_scaled
    (hNumber : 0 ≤ a.value)
    (hDivisor : 0 ≤ b.value)
    (hOther : 0 ≤ c.value) :
    let scale : ℚ := 10 ^ a.scale * 10 ^ b.scale * 10 ^ c.scale
    c.value * b.value * scale =
        (c.mantissa * denominator a b : Nat) ∧
      a.value * scale =
        (numerator a b * 10 ^ c.scale : Nat) := by
  intro scale
  rw [value_of_nonneg hOther, value_of_nonneg hNumber,
    value_of_nonneg hDivisor]
  unfold numerator denominator
  push_cast
  constructor
  · simp only [scale]
    field_simp
  · simp only [scale]
    field_simp

section

variable
  (hNumber : 0 ≤ a.value)
  (hDivisor : 0 ≤ b.value)
  (hOther : 0 ≤ c.value)
include hNumber hDivisor hOther

/- A decimal up to a quotient, told by whole numbers. -/
theorem value_mul_le_iff :
    c.value * b.value ≤ a.value ↔
      c.mantissa * denominator a b ≤
        numerator a b * 10 ^ c.scale := by
  have hScaled := value_mul_scaled hNumber hDivisor hOther
  rw [← Nat.cast_le (α := ℚ), ← hScaled.1, ← hScaled.2]
  exact (mul_le_mul_iff_left₀ (by positivity)).symm

theorem le_value_mul_iff :
    a.value ≤ c.value * b.value ↔
      numerator a b * 10 ^ c.scale ≤
        c.mantissa * denominator a b := by
  have hScaled := value_mul_scaled hNumber hDivisor hOther
  rw [← Nat.cast_le (α := ℚ), ← hScaled.1, ← hScaled.2]
  exact (mul_le_mul_iff_left₀ (by positivity)).symm

end

/- A quotient up to a decimal does not exceed the largest. -/
theorem bounded_of_le
    (hLe :
      numerator a b * 10 ^ d.scale ≤
        d.mantissa * denominator a b) :
    Bounded a b :=
  calc numerator a b
      ≤ numerator a b * 10 ^ d.scale :=
        Nat.le_mul_of_pos_right _ (ten_pow_pos _)
    _ ≤ d.mantissa * denominator a b := hLe
    _ ≤ (bound - 1) * denominator a b :=
        Nat.mul_le_mul_right _ (Nat.le_pred_of_lt d.mantissa_lt)

theorem units_of_nonneg
    (hNonneg : 0 ≤ d.value) :
    d.units = worth (d.mantissa, d.scale) := by
  rw [units_eq, negative_of_nonneg hNonneg]
  rfl

/-
  If the exact quotient of two decimals lies between two
  others, there is a quotient, and it lies between them too.
-/
theorem div_between
    (hLow : 0 ≤ c.value)
    (hDivisor : 0 < b.value)
    (hLower : c.value * b.value ≤ a.value)
    (hUpper : a.value ≤ d.value * b.value) :
    ∃ q, div a b = some q ∧ c ≤ q ∧ q ≤ d := by
  have hNumber : 0 ≤ a.value :=
    (mul_nonneg hLow hDivisor.le).trans hLower
  have hHigh : 0 ≤ d.value :=
    nonneg_of_mul_nonneg_left (hNumber.trans hUpper) hDivisor
  have hPos : 0 < b.mantissa := by
    by_contra hNone
    rw [value_of_nonneg hDivisor.le, Nat.eq_zero_of_not_pos hNone]
      at hDivisor
    simp at hDivisor
  cases hZero : a.isZero with
  | true =>
      have hNothing : a.mantissa = 0 := by
        simpa [isZero] using hZero
      have hNone : c.value ≤ 0 := by
        rw [value_of_nonneg hNumber, hNothing] at hLower
        simp only [Nat.cast_zero, zero_div] at hLower
        exact nonpos_of_mul_nonpos_left hLower hDivisor
      refine ⟨zero, ?_, ?_, ?_⟩
      · have hDivisorPos : b.isZero = false := by
          simp [isZero, hPos.ne']
        simp [div, hZero, hDivisorPos]
      · rwa [← value_le_iff, value_zero]
      · rwa [← value_le_iff, value_zero]
  | false =>
      have hBelow :=
        (value_mul_le_iff hNumber hDivisor.le hLow).mp hLower
      have hAbove :=
        (le_value_mul_iff hNumber hDivisor.le hHigh).mp hUpper
      have hSigns : a.negative = b.negative :=
        (negative_of_nonneg hNumber).trans
          (negative_of_nonneg hDivisor.le).symm
      rcases div_rounds hZero hPos hSigns (bounded_of_le hAbove)
        with ⟨q, parts, hQuotient, hUnits, hRounds⟩
      have hPositive : 0 < denominator a b :=
        Nat.mul_pos hPos (ten_pow_pos _)
      refine ⟨q, hQuotient, ?_, ?_⟩
      · change c.units ≤ q.units
        rw [hUnits, units_of_nonneg hLow]
        exact
          Int.ofNat_le.mpr
            (hRounds.le_worth hPositive c.mantissa_lt c.scale_le
              hBelow)
      · change q.units ≤ d.units
        rw [hUnits, units_of_nonneg hHigh]
        exact
          Int.ofNat_le.mpr
            (hRounds.worth_le hPositive d.mantissa_lt d.scale_le
              hAbove)

end Decimal

end OrderWatch
