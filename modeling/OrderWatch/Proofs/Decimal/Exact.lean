import OrderWatch.Proofs.Decimal.Rounding

/-
  Sums and differences that lose no digits.

  A sum or a difference is exact if the decimal that it is
  brought back to, if there is one, has the value of the exact
  result; trailing zeros may have been dropped.  Taking away
  from an exact sum what it began with gives what was added.

  Main declarations:
    * `Decimal.AddsExactly`, `Decimal.SubtractsExactly`
    * `Decimal.units_neg`
    * `Decimal.subtractsExactly_self`
-/

namespace OrderWatch

namespace Decimal

variable {a b c d : Decimal}

/- The sum of two decimals, if it fits, loses no digits. -/
def AddsExactly (a b : Decimal) : Prop :=
  ∀ c ∈ add a b, c.units = a.units + b.units

instance
    (a b : Decimal) :
    Decidable (a.AddsExactly b) := by
  unfold AddsExactly
  infer_instance

/- The difference of two decimals, if it fits, loses none. -/
def SubtractsExactly (a b : Decimal) : Prop :=
  ∀ c ∈ sub a b, c.units = a.units - b.units

instance
    (a b : Decimal) :
    Decidable (a.SubtractsExactly b) := by
  unfold SubtractsExactly
  infer_instance

theorem isPositive_iff
    (d : Decimal) :
    d.isPositive = true ↔ 0 < d.units := by
  unfold isPositive
  rw [decide_eq_true_iff]
  exact Iff.rfl

theorem units_neg
    (d : Decimal) :
    (-d).units = -d.units := by
  have hSigned : (-d).signed = -d.signed := by
    unfold signed
    change
      (if !d.negative && d.mantissa != 0 then
          -(d.mantissa : Int)
        else
          d.mantissa) = _
    by_cases hZero : d.mantissa = 0
    · simp [hZero]
    · cases d.negative <;> simp [hZero]
  have hScale : (-d).scale = d.scale := rfl
  unfold units
  rw [hSigned, hScale, Int.neg_mul]

theorem eq_zero_of_signedWorth
    {negative : Bool}
    {n scale : Nat}
    (hZero : signedWorth negative (n, scale) = 0) :
    n = 0 := by
  have hWorth : worth (n, scale) = 0 := by
    unfold signedWorth at hZero
    split at hZero <;> omega
  rcases Nat.mul_eq_zero.mp hWorth with hNone | hPower
  · exact hNone
  · exact absurd hPower (ten_pow_pos _).ne'

/- Nothing is brought back to nothing. -/
theorem units_fitSigned_zero
    {negative : Bool}
    {scale : Nat}
    (hScale : scale ≤ maxScale)
    (hFit : fitSigned negative 0 scale = some d) :
    d.units = 0 := by
  have hNone : firstDrop 0 scale = 0 := by
    unfold firstDrop
    rw [if_pos (by decide)]
    omega
  have hSame : fit 0 scale = some (0, scale) := by
    unfold fit
    simp [hNone]
  unfold fitSigned at hFit
  rw [hSame] at hFit
  rw [units_ofParts? hFit]
  simp [signedWorth, worth]

/- A decimal is taken away from itself without a rest. -/
theorem subtractsExactly_self
    (a : Decimal) :
    a.SubtractsExactly a := by
  intro c hDifference
  rw [Int.sub_self]
  have hOpposite := a.units_neg
  rcases add_cases hDifference with
    ⟨hZero, rfl⟩ | ⟨hZero, rfl⟩ | ⟨negative, n, hFit, hExact⟩
  · rw [hOpposite, hZero, Int.neg_zero]
  · omega
  · have hRest :
        signedWorth negative
          (n, max a.scale (-a).scale) = 0 := by
      omega
    rw [eq_zero_of_signedWorth hRest] at hFit
    exact
      units_fitSigned_zero
        (Nat.max_le.mpr ⟨a.scale_le, (-a).scale_le⟩) hFit

/- Taking away what an exact sum began with. -/
theorem units_sub_of_exact
    (hSum : c ∈ add a b)
    (hAdds : a.AddsExactly b)
    (hSubtracts : c.SubtractsExactly a)
    (hDifference : sub c a = some d) :
    d.units = b.units := by
  have hTotal := hAdds c hSum
  have hRest := hSubtracts d hDifference
  omega

end Decimal

end OrderWatch
