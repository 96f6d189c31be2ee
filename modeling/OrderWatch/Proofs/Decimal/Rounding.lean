import OrderWatch.Proofs.Decimal.Sum

/-
  Rounded sums keep their place among the decimals.

  A sum loses a fraction digit only if it does not fit with
  it, so a rounded mantissa is about as long as a mantissa
  can be.  Therefore a decimal that does not exceed the exact
  sum does not exceed the rounded one either, although it may
  have more fraction digits than the sum has kept.

  Main declarations:
    * `Decimal.worth`
    * `Decimal.Fitted`, `Decimal.fit_fitted`
    * `Decimal.Fitted.le_worth`, `Decimal.Fitted.worth_le`
    * `Decimal.le_add_of_le`
-/

namespace OrderWatch

namespace Decimal

------------------------------------------------------------
-- Rounding
------------------------------------------------------------

/- A larger number is not rounded to a smaller one. -/
theorem roundHalfEven_mono
    {n m : Nat}
    (d : Nat)
    (hLe : n ≤ m) :
    roundHalfEven n d ≤ roundHalfEven m d := by
  rcases Nat.lt_or_ge (n / d) (m / d) with hBelow | hReached
  · have hUpper := (roundHalfEven_bounds n d).2
    have hLower := (roundHalfEven_bounds m d).1
    omega
  · have hQuotient : n / d = m / d :=
      Nat.le_antisymm (Nat.div_le_div_right hLe) hReached
    have hFirst := Nat.div_add_mod n d
    have hSecond := Nat.div_add_mod m d
    unfold roundHalfEven
    rw [hQuotient] at hFirst ⊢
    split
    · rw [if_pos (by omega)]
    · split <;> omega

/- Common trailing zeros make no difference to a rounding. -/
theorem roundHalfEven_mul_mul
    (n d : Nat)
    {k : Nat}
    (hPos : 0 < k) :
    roundHalfEven (n * k) (d * k) = roundHalfEven n d := by
  have hLess :
      d * k < 2 * (n % d * k) ↔ d < 2 * (n % d) := by
    rw [← Nat.mul_assoc]
    exact Nat.mul_lt_mul_right hPos
  have hHalf :
      2 * (n % d * k) = d * k ↔ 2 * (n % d) = d := by
    rw [← Nat.mul_assoc]
    exact Nat.mul_left_inj hPos.ne'
  unfold roundHalfEven
  rw [Nat.mul_div_mul_right n d hPos, Nat.mul_mod_mul_right]
  simp only [hLess, hHalf]

/- A number from a multiple on is not rounded below it. -/
theorem le_roundHalfEven
    {n d q : Nat}
    (hPos : 0 < d)
    (hLe : q * d ≤ n) :
    q ≤ roundHalfEven n d := by
  have hMono := roundHalfEven_mono d hLe
  rwa [roundHalfEven_mul q hPos] at hMono

------------------------------------------------------------
-- What a mantissa is worth
------------------------------------------------------------

/- A mantissa on its places, in units of `10 ^ -28`. -/
def worth (parts : Nat × Nat) : Nat :=
  parts.1 * 10 ^ (maxScale - parts.2)

/- More places for the same worth. -/
theorem worth_mul
    (m : Nat)
    {places scale : Nat}
    (hPlaces : places ≤ scale)
    (hScale : scale ≤ maxScale) :
    worth (m * 10 ^ (scale - places), scale) =
      worth (m, places) := by
  unfold worth
  rw [ten_pow_split hPlaces hScale, Nat.mul_assoc]

theorem worth_add
    (n m scale : Nat) :
    worth (n + m, scale) = worth (n, scale) + worth (m, scale) :=
  Nat.add_mul n m _

theorem worth_sub
    (n m scale : Nat) :
    worth (n - m, scale) = worth (n, scale) - worth (m, scale) :=
  Nat.sub_mul n m _

/- On the same places mantissas compare like their worths. -/
theorem worth_le_iff
    {n m : Nat}
    (scale : Nat) :
    worth (n, scale) ≤ worth (m, scale) ↔ n ≤ m := by
  unfold worth
  exact Nat.mul_le_mul_right_iff (ten_pow_pos _)

------------------------------------------------------------
-- Keeping some places
------------------------------------------------------------

/- A mantissa that has lost its last digit. -/
theorem roundHalfEven_ten
    (n left : Nat) :
    roundHalfEven n 10 = keeping n (left + 1) left := by
  unfold keeping
  rw [Nat.add_sub_cancel_left, Nat.pow_one]

section

variable {n m scale left places : Nat}

theorem le_keeping
    (hKept : places ≤ left)
    (hLeft : left ≤ scale)
    (hLe : m * 10 ^ (scale - places) ≤ n) :
    m * 10 ^ (left - places) ≤ keeping n scale left := by
  apply le_roundHalfEven (ten_pow_pos _)
  rwa [Nat.mul_assoc, ← ten_pow_split hKept hLeft]

theorem keeping_le
    (hKept : places ≤ left)
    (hLeft : left ≤ scale)
    (hLe : n ≤ m * 10 ^ (scale - places)) :
    keeping n scale left ≤ m * 10 ^ (left - places) := by
  apply roundHalfEven_le (ten_pow_pos _)
  rwa [Nat.mul_assoc, ← ten_pow_split hKept hLeft]

/- A number too long for one place more stays long. -/
theorem long_keeping
    (hDropped : left < scale)
    (hLong : bound * 10 ^ (scale - (left + 1)) ≤ n) :
    roundHalfEven bound 10 ≤ keeping n scale left := by
  have hRest :
      10 ^ (scale - left) = 10 * 10 ^ (scale - (left + 1)) := by
    rw [ten_pow_split (Nat.le_succ left) hDropped,
      Nat.succ_sub (Nat.le_refl left), Nat.sub_self,
      Nat.pow_one]
  have hMono := roundHalfEven_mono (10 ^ (scale - left)) hLong
  rwa [hRest, roundHalfEven_mul_mul bound 10 (ten_pow_pos _), ← hRest]
    at hMono

/-
  A mantissa that is as long as a rounded one outweighs every
  mantissa on more places.
-/
theorem worth_le_of_long
    {q : Nat}
    (hShort : m < bound)
    (hPlaces : places ≤ maxScale)
    (hMore : left < places)
    (hLong : roundHalfEven bound 10 ≤ q) :
    worth (m, places) ≤ worth (q, left) := by
  have hTenfold : m ≤ q * 10 := by
    have hBound : bound ≤ roundHalfEven bound 10 * 10 := by
      decide
    omega
  have hNext : left + 1 ≤ maxScale := by omega
  calc worth (m, places)
      ≤ m * 10 ^ (maxScale - (left + 1)) :=
        Nat.mul_le_mul_left m
          (Nat.pow_le_pow_right (by decide) (by omega))
    _ ≤ worth (q * 10, left + 1) :=
        Nat.mul_le_mul_right _ hTenfold
    _ = worth (q, left) := by
        have hPlace := worth_mul q (Nat.le_succ left) hNext
        rwa [Nat.succ_sub (Nat.le_refl left), Nat.sub_self]
          at hPlace

/- A decimal up to a number that has to lose digits. -/
theorem worth_le_keeping
    (hScale : scale ≤ maxScale)
    (hShort : m < bound)
    (hPlaces : places ≤ maxScale)
    (hDropped : left < scale)
    (hLong : bound * 10 ^ (scale - (left + 1)) ≤ n)
    (hLe : places ≤ left → m * 10 ^ (scale - places) ≤ n) :
    worth (m, places) ≤ worth (keeping n scale left, left) := by
  rcases Nat.lt_or_ge left places with hMore | hKept
  · exact
      worth_le_of_long hShort hPlaces hMore
        (long_keeping hDropped hLong)
  · rw [← worth_mul m hKept (by omega), worth_le_iff]
    exact le_keeping hKept (Nat.le_of_lt hDropped) (hLe hKept)

/- A decimal from a number on that has lost digits. -/
theorem keeping_worth_le
    (hScale : scale ≤ maxScale)
    (hKept : places ≤ left)
    (hLeft : left ≤ scale)
    (hLe : n ≤ m * 10 ^ (scale - places)) :
    worth (keeping n scale left, left) ≤ worth (m, places) := by
  rw [← worth_mul m hKept (hLeft.trans hScale), worth_le_iff]
  exact keeping_le hKept hLeft hLe

end

------------------------------------------------------------
-- The ways that a number is fitted
------------------------------------------------------------

/- The ways that a number can be brought back to 96 bits. -/
inductive Fitted (n scale : Nat) : Nat × Nat → Prop where
  | whole
      (hShort : n < bound) :
      Fitted n scale (n, scale)
  | rounded
      (left : Nat)
      (hDropped : left < scale)
      (hLong : bound * 10 ^ (scale - (left + 1)) ≤ n)
      (hFits : keeping n scale left < bound) :
      Fitted n scale (keeping n scale left, left)
  | carried
      (left : Nat)
      (hDropped : left < scale)
      (hOver : bound ≤ keeping n scale (left + 1)) :
      Fitted n scale
        (roundHalfEven (keeping n scale (left + 1)) 10, left)

/-
  Where a number does not fit on one place more, it is fitted
  on the most places from there down.
-/
theorem dropFrom_fitted
    {n scale left : Nat}
    {parts : Nat × Nat}
    (hDropped : left < scale)
    (hLong : bound * 10 ^ (scale - (left + 1)) ≤ n)
    (hParts : dropFrom n scale left = some parts) :
    Fitted n scale parts := by
  induction left with
  | zero =>
      unfold dropFrom carried at hParts
      split at hParts
      · split at hParts
        · rename_i hFits
          rw [← Option.some.inj hParts]
          exact .rounded 0 hDropped hLong hFits
        · contradiction
      · contradiction
  | succ left ih =>
      unfold dropFrom carried at hParts
      split at hParts
      · split at hParts
        · rename_i hFits
          rw [← Option.some.inj hParts]
          exact .rounded (left + 1) hDropped hLong hFits
        · rename_i hOver
          rw [← Option.some.inj hParts]
          exact .carried left (by omega) (Nat.le_of_not_lt hOver)
      · rename_i hTooLong
        have hStillLong :
            bound * 10 ^ (scale - (left + 1)) ≤ n := by
          rw [← Nat.le_div_iff_mul_le (ten_pow_pos _)]
          exact Nat.le_of_not_lt hTooLong
        exact ih (by omega) hStillLong hParts

/- The first drop is not one digit too many. -/
theorem long_of_firstDrop
    {n scale : Nat}
    (hScale : scale ≤ maxScale)
    (hSome : firstDrop n scale ≠ 0) :
    bound * 10 ^ (firstDrop n scale - 1) ≤ n := by
  by_contra hShort
  have hFewer := firstDrop_le hScale (Nat.lt_of_not_le hShort)
  omega

theorem fit_fitted
    {n scale : Nat}
    {parts : Nat × Nat}
    (hScale : scale ≤ maxScale)
    (hFit : fit n scale = some parts) :
    Fitted n scale parts := by
  unfold fit at hFit
  by_cases hNone : firstDrop n scale = 0
  · simp only [if_pos hNone] at hFit
    rw [← Option.some.inj hFit]
    exact .whole (lt_bound_of_firstDrop hNone)
  · simp only [if_neg hNone] at hFit
    split at hFit
    · rename_i hWithin
      have hLong := long_of_firstDrop hScale hNone
      apply dropFrom_fitted _ _ hFit
      · omega
      · have hRest :
            scale - (scale - firstDrop n scale + 1) =
              firstDrop n scale - 1 := by
          omega
        rwa [hRest]
    · contradiction

namespace Fitted

variable {n scale m places : Nat} {parts : Nat × Nat}

/- A decimal up to the exact number is one up to the fitted. -/
theorem le_worth
    (hFitted : Fitted n scale parts)
    (hScale : scale ≤ maxScale)
    (hPlaces : places ≤ scale)
    (hShort : m < bound)
    (hLe : m * 10 ^ (scale - places) ≤ n) :
    worth (m, places) ≤ worth parts := by
  cases hFitted with
  | whole =>
      rw [← worth_mul m hPlaces hScale]
      exact (worth_le_iff scale).mpr hLe
  | rounded left hDropped hLong =>
      exact
        worth_le_keeping hScale hShort (hPlaces.trans hScale)
          hDropped hLong (fun _ => hLe)
  | carried left hDropped hOver =>
      rw [roundHalfEven_ten _ left]
      apply
        worth_le_keeping (by omega) hShort
          (hPlaces.trans hScale) (Nat.lt_succ_self left)
      · rwa [Nat.sub_self, Nat.pow_zero, Nat.mul_one]
      · intro hKept
        exact le_keeping (Nat.le_succ_of_le hKept) hDropped hLe

/- A bound on some places, on fewer of them. -/
theorem le_on_fewer
    {left : Nat}
    (hMore : left < places)
    (hLe : n ≤ m * 10 ^ (scale - places)) :
    n ≤ m * 10 ^ (scale - (left + 1)) := by
  have hPower :
      10 ^ (scale - places) ≤ 10 ^ (scale - (left + 1)) :=
    Nat.pow_le_pow_right (by decide) (by omega)
  exact hLe.trans (Nat.mul_le_mul_left m hPower)

/- A decimal from the exact number on is one from the fitted. -/
theorem worth_le
    (hFitted : Fitted n scale parts)
    (hScale : scale ≤ maxScale)
    (hPlaces : places ≤ scale)
    (hShort : m < bound)
    (hLe : n ≤ m * 10 ^ (scale - places)) :
    worth parts ≤ worth (m, places) := by
  cases hFitted with
  | whole =>
      rw [← worth_mul m hPlaces hScale]
      exact (worth_le_iff scale).mpr hLe
  | rounded left hDropped hLong =>
      have hKept : places ≤ left := by
        -- Otherwise the decimal would be as long as the number.
        by_contra hMore
        have hBoth :=
          hLong.trans (le_on_fewer (Nat.lt_of_not_le hMore) hLe)
        have hBound : bound ≤ m :=
          Nat.le_of_mul_le_mul_right hBoth (ten_pow_pos _)
        omega
      exact
        keeping_worth_le hScale hKept (Nat.le_of_lt hDropped) hLe
  | carried left hDropped hOver =>
      have hKept : places ≤ left := by
        by_contra hMore
        have hBelow : keeping n scale (left + 1) ≤ m :=
          roundHalfEven_le (ten_pow_pos _)
            (le_on_fewer (Nat.lt_of_not_le hMore) hLe)
        omega
      have hOnce :=
        keeping_le (Nat.le_succ_of_le hKept) hDropped hLe
      rw [roundHalfEven_ten _ left]
      exact
        keeping_worth_le (by omega) hKept (Nat.le_succ left)
          hOnce

end Fitted

------------------------------------------------------------
-- Sums of decimals
------------------------------------------------------------

variable {a b c d : Decimal} {n scale : Nat}

/- A worth with a sign, like the value of a decimal. -/
def signedWorth (negative : Bool) (parts : Nat × Nat) : Int :=
  if negative then -(worth parts : Int) else worth parts

theorem units_eq
    (d : Decimal) :
    d.units = signedWorth d.negative (d.mantissa, d.scale) := by
  unfold units signed signedWorth worth
  cases d.negative <;> simp

/- The value of a decimal, written on more places. -/
theorem units_eq_on
    (d : Decimal)
    (hPlaces : d.scale ≤ scale)
    (hScale : scale ≤ maxScale) :
    d.units =
      signedWorth d.negative
        (d.mantissa * 10 ^ (scale - d.scale), scale) := by
  rw [units_eq]
  unfold signedWorth
  rw [worth_mul d.mantissa hPlaces hScale]

theorem signedWorth_add
    (negative : Bool)
    (n m scale : Nat) :
    signedWorth negative (n, scale)
        + signedWorth negative (m, scale) =
      signedWorth negative (n + m, scale) := by
  unfold signedWorth
  rw [worth_add]
  split <;> omega

/- The larger one of two opposite worths gives the sign. -/
theorem signedWorth_add_opposite
    {positive negative : Bool}
    (hOther : positive ≠ negative)
    {n m : Nat}
    (scale : Nat)
    (hLe : m ≤ n) :
    signedWorth positive (n, scale)
        + signedWorth negative (m, scale) =
      signedWorth positive (n - m, scale) := by
  have hWorth := (worth_le_iff scale).mpr hLe
  unfold signedWorth
  rw [worth_sub]
  cases positive <;> cases negative <;> simp at hOther ⊢ <;> omega

theorem units_ofParts?
    {negative : Bool}
    {mantissa places : Nat}
    (hParts : ofParts? negative mantissa places = some d) :
    d.units = signedWorth negative (mantissa, places) := by
  unfold ofParts? at hParts
  split at hParts
  · rw [← Option.some.inj hParts, units_eq]
    unfold signedWorth
    cases negative with
    | false => simp
    | true =>
        by_cases hZero : mantissa = 0
        · simp [hZero, worth]
        · simp [hZero]
  · contradiction

/-
  A decimal up to an exact result is one up to the decimal
  that the result is brought back to.
-/
theorem le_fitSigned
    {negative : Bool}
    (hScale : scale ≤ maxScale)
    (hPlaces : d.scale ≤ scale)
    (hFit : fitSigned negative n scale = some c)
    (hLe : d.units ≤ signedWorth negative (n, scale)) :
    d ≤ c := by
  unfold fitSigned at hFit
  split at hFit
  · rename_i mantissa left hParts
    have hFitted := fit_fitted hScale hParts
    have hPlaced :=
      worth_mul d.mantissa hPlaces hScale
    change d.units ≤ c.units
    rw [units_ofParts? hFit]
    rw [units_eq] at hLe ⊢
    unfold signedWorth at hLe ⊢
    cases negative with
    | false =>
        cases hSign : d.negative with
        | true =>
            rw [if_pos rfl, if_neg (by decide)]
            omega
        | false =>
            rw [hSign, if_neg (by decide), if_neg (by decide),
              Int.ofNat_le, ← hPlaced, worth_le_iff] at hLe
            have hWorth :=
              hFitted.le_worth hScale hPlaces d.mantissa_lt hLe
            rw [if_neg (by decide), if_neg (by decide)]
            omega
    | true =>
        have hAbove :
            worth (n, scale) ≤ worth (d.mantissa, d.scale) := by
          split at hLe <;> simp at hLe <;> omega
        have hMantissa :
            n ≤ d.mantissa * 10 ^ (scale - d.scale) := by
          rwa [← hPlaced, worth_le_iff] at hAbove
        have hWorth :=
          hFitted.worth_le hScale hPlaces d.mantissa_lt hMantissa
        rw [if_pos rfl] at hLe ⊢
        split at hLe
        · rename_i hSign
          rw [if_pos hSign]
          omega
        · rename_i hSign
          rw [if_neg hSign]
          omega
  · contradiction

/-
  A sum is one of the operands if the other is zero, and else
  the exact sum brought back to 96 bits.
-/
theorem add_cases
    (hSum : add a b = some c) :
    (a.units = 0 ∧ c = b) ∨ (b.units = 0 ∧ c = a) ∨
      ∃ negative n,
        fitSigned negative n (max a.scale b.scale) = some c ∧
        a.units + b.units =
          signedWorth negative (n, max a.scale b.scale) := by
  have hScale : max a.scale b.scale ≤ maxScale :=
    Nat.max_le.mpr ⟨a.scale_le, b.scale_le⟩
  unfold add at hSum
  split at hSum
  · rename_i hZero
    have hNone : a.mantissa = 0 := by simpa [isZero] using hZero
    left
    exact
      ⟨by simp [units, signed, hNone],
        (Option.some.inj hSum).symm⟩
  · split at hSum
    · rename_i hZero
      have hNone : b.mantissa = 0 := by
        simpa [isZero] using hZero
      right; left
      exact
        ⟨by simp [units, signed, hNone],
          (Option.some.inj hSum).symm⟩
    · right; right
      rw [a.units_eq_on (Nat.le_max_left _ _) hScale,
        b.units_eq_on (Nat.le_max_right _ _) hScale]
      simp only at hSum
      split at hSum
      · rename_i hSame
        refine ⟨a.negative, _, hSum, ?_⟩
        rw [← eq_of_beq hSame, signedWorth_add]
      · rename_i hOther
        have hOpposite : a.negative ≠ b.negative := by
          simpa using hOther
        split at hSum
        · rename_i hLess
          refine ⟨b.negative, _, hSum, ?_⟩
          rw [Int.add_comm]
          exact
            signedWorth_add_opposite hOpposite.symm _
              (Nat.le_of_lt hLess)
        · rename_i hMore
          refine ⟨a.negative, _, hSum, ?_⟩
          exact
            signedWorth_add_opposite hOpposite _
              (Nat.le_of_not_lt hMore)

/-
  A decimal up to the exact sum of two others, on no more
  places than they have, is one up to their rounded sum.
-/
theorem le_add_of_le
    (hPlaces : d.scale ≤ max a.scale b.scale)
    (hLe : d.units ≤ a.units + b.units)
    (hSum : add a b = some c) :
    d ≤ c := by
  rcases add_cases hSum with
    ⟨hZero, rfl⟩ | ⟨hZero, rfl⟩ | ⟨negative, n, hFit, hExact⟩
  · rwa [hZero, Int.zero_add] at hLe
  · rwa [hZero, Int.add_zero] at hLe
  · apply le_fitSigned (Nat.max_le.mpr ⟨a.scale_le, b.scale_le⟩)
      hPlaces hFit
    rwa [← hExact]

/- What is not below zero makes no sum smaller. -/
theorem le_add_right
    (hAmount : .zero ≤ b)
    (hSum : add a b = some c) :
    a ≤ c := by
  apply le_add_of_le (Nat.le_max_left _ _) _ hSum
  have hUnits : (0 : Int) ≤ b.units := by
    simpa [zero, units, signed] using
      (show zero.units ≤ b.units from hAmount)
  omega

/- The sum loses a digit that the total had, and rises. -/
example :
    (add
      ⟨false, 79228162514264337593543950335, 1,
        by decide, by decide, by decide⟩
      ⟨false, 1, 1, by decide, by decide, by decide⟩).map
        (fun c => (c.mantissa, c.scale)) =
      some (7922816251426433759354395034, 0) := by
  decide

end Decimal

end OrderWatch
