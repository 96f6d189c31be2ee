import Mathlib.Tactic.Positivity
import OrderWatch.Decimal.Sum

/-
  Sums and differences that fit.

  A number of at most 96 bits, written on more places, can be
  brought back to its own places, and so can every number
  below it.  Therefore a difference of two decimals without a
  minus sign always fits, whatever their scales.

  Main declarations:
    * `Decimal.firstDrop_le`
    * `Decimal.fit_of_le`
    * `Decimal.sub_fits`
    * `Decimal.add_unsigned`
-/

namespace OrderWatch

namespace Decimal

------------------------------------------------------------
-- Rounding
------------------------------------------------------------

/- A number up to a multiple is not rounded beyond it. -/
theorem roundHalfEven_le
    {n d q : Nat}
    (hPos : 0 < d)
    (hLe : n ≤ q * d) :
    roundHalfEven n d ≤ q := by
  rcases Nat.lt_or_ge (n / d) q with hBelow | hReached
  · have hUpper := (roundHalfEven_bounds n d).2
    omega
  · have hLower : q * d ≤ n := by
      rwa [← Nat.le_div_iff_mul_le hPos]
    have hExact : n = q * d := Nat.le_antisymm hLe hLower
    rw [hExact, roundHalfEven_mul q hPos]

------------------------------------------------------------
-- Digits to drop
------------------------------------------------------------

/- 77 digits take less than 256 bits. -/
theorem bits_of_digits
    {j k : Nat}
    (hLt : 2 ^ j < 10 ^ k) :
    j * 77 < 256 * k := by
  by_contra hMany
  have hBits : (2 ^ 256) ^ k ≤ (2 ^ j) ^ 77 := by
    rw [← Nat.pow_mul, ← Nat.pow_mul]
    exact Nat.pow_le_pow_right (by decide) (by omega)
  have hDigits : (2 ^ j) ^ 77 < (10 ^ k) ^ 77 :=
    Nat.pow_lt_pow_left hLt (by decide)
  have hBoth : (10 ^ k) ^ 77 ≤ (2 ^ 256) ^ k := by
    rw [← Nat.pow_mul, Nat.mul_comm, Nat.pow_mul]
    exact Nat.pow_le_pow_left (by decide) k
  omega

/- The digits dropped at first never exceed what has to go. -/
theorem firstDrop_le
    {n scale k : Nat}
    (hScale : scale ≤ maxScale)
    (hLt : n < bound * 10 ^ k) :
    firstDrop n scale ≤ k := by
  have hExcess : scale - maxScale = 0 := by omega
  unfold firstDrop
  simp only [hExcess]
  split
  · exact Nat.zero_le k
  · rename_i hLong
    have hNonzero : n ≠ 0 := by
      intro hZero
      simp [hZero] at hLong
    have hLog : 96 ≤ n.log2 :=
      (Nat.le_log2 hNonzero).mpr (Nat.le_of_not_lt hLong)
    have hPower : 2 ^ n.log2 ≤ n := Nat.log2_self_le hNonzero
    have hSplit : 2 ^ n.log2 = bound * 2 ^ (n.log2 - 96) := by
      rw [← Nat.pow_add]
      congr 1
      omega
    have hBits : 2 ^ (n.log2 - 96) < 10 ^ k := by
      rw [hSplit] at hPower
      exact Nat.lt_of_mul_lt_mul_left
        (Nat.lt_of_le_of_lt hPower hLt)
    have hDigits := bits_of_digits hBits
    omega

/- Where no digit is dropped the number is short enough. -/
theorem lt_bound_of_firstDrop
    {n scale : Nat}
    (hNone : firstDrop n scale = 0) :
    n < bound := by
  by_contra hLong
  unfold firstDrop at hNone
  simp only [if_neg hLong] at hNone
  omega

------------------------------------------------------------
-- Numbers that fit
------------------------------------------------------------

/- A mantissa and its places make a decimal. -/
def InRange (parts : Nat × Nat) (left : Nat) : Prop :=
  parts.1 < bound ∧ parts.2 ≤ left

/- A mantissa that rounding has carried past its last bit. -/
theorem carried_succ
    {mantissa left : Nat}
    (hLe : mantissa ≤ bound) :
    ∃ parts, carried mantissa (left + 1) = some parts ∧
      InRange parts (left + 1) := by
  unfold carried
  split
  · rename_i hShort
    exact ⟨_, rfl, hShort, Nat.le_refl _⟩
  · have hEnd : mantissa = bound := by omega
    have hShort : roundHalfEven bound 10 < bound :=
      Nat.lt_of_le_of_lt (roundHalfEven_bounds bound 10).2
        (by decide)
    refine ⟨_, rfl, ?_, Nat.le_succ left⟩
    rw [hEnd]
    exact hShort

/- The quotient of what lies below a multiple. -/
theorem div_lt_bound
    {n m d : Nat}
    (hBound : m < bound)
    (hLe : n ≤ m * d) :
    n / d < bound := by
  have hQuotient : n / d ≤ m := Nat.div_le_of_le_mul (by
    rwa [Nat.mul_comm])
  omega

/-
  Digits are dropped down to the places on which the number
  lies below one of 96 bits.
-/
theorem dropFrom_of_le
    {n m scale places : Nat}
    (left : Nat)
    (hBound : m < bound)
    (hLe : n ≤ m * 10 ^ (scale - places))
    (hPlaces : places ≤ left) :
    ∃ parts, dropFrom n scale left = some parts ∧
      InRange parts left := by
  have hPos : ∀ k, 0 < 10 ^ k := fun k =>
    Nat.pow_pos (by decide)
  induction left with
  | zero =>
      have hZero : places = 0 := by omega
      rw [hZero, Nat.sub_zero] at hLe
      have hWhole := div_lt_bound hBound hLe
      have hRounded : keeping n scale 0 < bound := by
        unfold keeping
        have hUpper := roundHalfEven_le (hPos scale) hLe
        rw [Nat.sub_zero]
        omega
      unfold dropFrom carried
      rw [if_pos hWhole, if_pos hRounded]
      exact ⟨_, rfl, hRounded, Nat.le_refl 0⟩
  | succ left ih =>
      unfold dropFrom
      split
      · rename_i hWhole
        apply carried_succ
        unfold keeping
        have hUpper :=
          (roundHalfEven_bounds n
            (10 ^ (scale - (left + 1)))).2
        omega
      · rename_i hLong
        have hFewer : places ≤ left := by
          by_contra hAll
          have hSame : places = left + 1 := by omega
          rw [hSame] at hLe
          exact hLong (div_lt_bound hBound hLe)
        rcases ih hFewer with ⟨parts, hDropped, hRange⟩
        exact ⟨parts, hDropped, hRange.1, by
          have hLess := hRange.2
          omega⟩

/- A number below one of 96 bits on fewer places fits. -/
theorem fit_of_le
    {n m scale places : Nat}
    (hScale : scale ≤ maxScale)
    (hPlaces : places ≤ scale)
    (hBound : m < bound)
    (hLe : n ≤ m * 10 ^ (scale - places)) :
    ∃ parts, fit n scale = some parts ∧
      InRange parts maxScale := by
  have hLt : n < bound * 10 ^ (scale - places) :=
    Nat.lt_of_le_of_lt hLe
      (Nat.mul_lt_mul_of_pos_right hBound
        (Nat.pow_pos (by decide)))
  have hDrop := firstDrop_le hScale hLt
  unfold fit
  by_cases hNone : firstDrop n scale = 0
  · simp only [if_pos hNone]
    exact ⟨_, rfl, lt_bound_of_firstDrop hNone, hScale⟩
  · have hWithin : firstDrop n scale ≤ scale := by omega
    simp only [if_neg hNone, if_pos hWithin]
    rcases dropFrom_of_le (scale - firstDrop n scale) hBound
        hLe (by omega) with ⟨parts, hDropped, hRange⟩
    refine ⟨parts, hDropped, hRange.1, ?_⟩
    have hLess := hRange.2
    omega

theorem fitSigned_of_le
    {n m scale places : Nat}
    (negative : Bool)
    (hScale : scale ≤ maxScale)
    (hPlaces : places ≤ scale)
    (hBound : m < bound)
    (hLe : n ≤ m * 10 ^ (scale - places)) :
    (fitSigned negative n scale).isSome := by
  rcases fit_of_le hScale hPlaces hBound hLe with
    ⟨⟨mantissa, left⟩, hFit, hRange⟩
  unfold fitSigned
  rw [hFit]
  simp only [ofParts?]
  rw [dif_pos ⟨hRange.1, hRange.2⟩]
  rfl

------------------------------------------------------------
-- Differences
------------------------------------------------------------

/- A difference of decimals without a minus sign fits. -/
theorem sub_fits
    {a b : Decimal}
    (hLeft : a.negative = false)
    (hRight : b.negative = false) :
    (sub a b).isSome := by
  have hScales : max a.scale b.scale ≤ maxScale :=
    Nat.max_le.mpr ⟨a.scale_le, b.scale_le⟩
  unfold sub add
  split
  · rfl
  · split
    · rfl
    · rename_i hNonzero
      have hMantissa : b.mantissa ≠ 0 := by
        intro hZero
        exact hNonzero (by simp [isZero, Neg.neg, hZero])
      have hSign : (-b).negative = true := by
        simp [Neg.neg, hRight, hMantissa]
      have hScale : (-b).scale = b.scale := rfl
      have hSame : (-b).mantissa = b.mantissa := rfl
      simp only [hSign, hLeft, hScale, hSame]
      rw [if_neg (by decide)]
      split
      · apply fitSigned_of_le true hScales
          (Nat.le_max_right a.scale b.scale) b.mantissa_lt
        exact Nat.sub_le _ _
      · apply fitSigned_of_le false hScales
          (Nat.le_max_left a.scale b.scale) a.mantissa_lt
        exact Nat.sub_le _ _

------------------------------------------------------------
-- Signs
------------------------------------------------------------

/- What is above zero has no minus sign. -/
theorem negative_of_isPositive
    {d : Decimal}
    (hPositive : d.isPositive = true) :
    d.negative = false := by
  by_contra hSigned
  have hNegative : d.negative = true := by simpa using hSigned
  have hAbove : (0 : Int) < d.units := by
    simpa [isPositive, zero, units, signed] using
      (of_decide_eq_true hPositive : zero.units < d.units)
  have hBelow : d.units ≤ 0 := by
    unfold units signed
    rw [if_pos hNegative]
    apply Int.mul_nonpos_of_nonpos_of_nonneg
    · omega
    · positivity
  omega

/- A sum of decimals without a minus sign has none either. -/
theorem add_unsigned
    {a b c : Decimal}
    (hLeft : a.negative = false)
    (hRight : b.negative = false)
    (hSum : add a b = some c) :
    c.negative = false := by
  unfold add at hSum
  split at hSum
  · rw [← Option.some.inj hSum, hRight]
  · split at hSum
    · rw [← Option.some.inj hSum, hLeft]
    · simp only [hLeft, hRight] at hSum
      rw [if_pos (by decide)] at hSum
      unfold fitSigned ofParts? at hSum
      split at hSum
      · split at hSum
        · rw [← Option.some.inj hSum]
          rfl
        · contradiction
      · contradiction

end Decimal

end OrderWatch
