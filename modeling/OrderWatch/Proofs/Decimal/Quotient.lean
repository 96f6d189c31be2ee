import Mathlib.Tactic.IntervalCases
import Mathlib.Tactic.Linarith
import Mathlib.Tactic.Ring
import OrderWatch.Decimal.Quotient
import OrderWatch.Proofs.Decimal.Rounding

/-
  Quotients are rounded on the most places that fit.

  A long division holds the quotient and the remainder of the
  dividend with some digits appended.  It ends with a quotient
  that is exact, or rounded half to even on so many places
  that one more would not fit, so that a decimal on more
  places is too short to lie between the quotient and what it
  is rounded to.  Therefore a decimal that does not exceed the
  exact quotient does not exceed the rounded one either.

  Main declarations:
    * `Decimal.Rounds`
    * `Decimal.Rounds.le_worth`, `Decimal.Rounds.worth_le`
    * `Decimal.LongDivision.Under`
    * `Decimal.LongDivision.Under.run`
    * `Decimal.div_rounds`
-/

namespace OrderWatch

namespace Decimal

------------------------------------------------------------
-- Rounded quotients
------------------------------------------------------------

/- A rounded quotient is off by half a unit at most. -/
theorem roundHalfEven_nearest
    (n : Nat)
    {d : Nat}
    (hPos : 0 < d) :
    2 * n ≤ (2 * roundHalfEven n d + 1) * d ∧
      2 * roundHalfEven n d * d ≤ 2 * n + d := by
  have hSplit := Nat.div_add_mod n d
  have hRest := Nat.mod_lt n hPos
  have hTimes : d * (n / d) = n / d * d := Nat.mul_comm _ _
  unfold roundHalfEven
  split <;> constructor <;> grind

/- Digits are appended in two steps. -/
theorem mul_ten_pow
    (n : Nat)
    {places scale : Nat}
    (hPlaces : places ≤ scale) :
    n * 10 ^ places * 10 ^ (scale - places) = n * 10 ^ scale := by
  rw [Nat.mul_assoc, Nat.mul_comm (10 ^ places),
    Nat.pow_sub_mul_pow 10 hPlaces]

theorem worth_mul_right
    (m places d : Nat) :
    worth (m, places) * d = m * d * 10 ^ (maxScale - places) :=
  Nat.mul_right_comm m _ d

/- A rounded quotient and the one with a digit more. -/
theorem roundHalfEven_tenfold
    (n : Nat)
    {d : Nat}
    (hPos : 0 < d) :
    2 * roundHalfEven (n * 10) d ≤
        20 * roundHalfEven n d + 11 ∧
      20 * roundHalfEven n d ≤
        2 * roundHalfEven (n * 10) d + 11 := by
  have hHere := roundHalfEven_nearest n hPos
  have hNext := roundHalfEven_nearest (n * 10) hPos
  constructor <;>
    exact Nat.le_of_mul_le_mul_right (by linarith) hPos

/-
  A mantissa and its places for the quotient of `n` by `d`:
  rounded half to even, and unless this is exact, on the most
  places that a decimal has or that leave it 96 bits.
-/
structure Rounds (n d : Nat) (parts : Nat × Nat) : Prop where
  rounded : parts.1 = roundHalfEven (n * 10 ^ parts.2) d
  short : parts.1 < bound
  places_le : parts.2 ≤ maxScale
  full :
    d ∣ n * 10 ^ parts.2 ∨ parts.2 = maxScale ∨
      bound ≤ roundHalfEven (n * 10 ^ (parts.2 + 1)) d

namespace Rounds

variable {n d m places : Nat} {parts : Nat × Nat}

/- An exact quotient is what is divided. -/
theorem mul_eq
    (h : Rounds n d parts)
    (hPos : 0 < d)
    (hExact : d ∣ n * 10 ^ parts.2) :
    parts.1 * d = n * 10 ^ parts.2 := by
  rcases hExact with ⟨q, hWhole⟩
  rw [h.rounded, hWhole, Nat.mul_comm d q,
    roundHalfEven_mul q hPos]

/- Where one place more does not fit the mantissa is long. -/
theorem long
    (h : Rounds n d parts)
    (hPos : 0 < d)
    (hFull :
      bound ≤ roundHalfEven (n * 10 ^ (parts.2 + 1)) d) :
    roundHalfEven bound 10 ≤ parts.1 := by
  have hTenfold :=
    (roundHalfEven_tenfold (n * 10 ^ parts.2) hPos).1
  rw [← h.rounded] at hTenfold
  rw [Nat.pow_succ, ← Nat.mul_assoc] at hFull
  have hLast :
      20 * roundHalfEven bound 10 ≤ 2 * bound + 8 := by
    decide
  omega

/-
  A mantissa compares with a quotient like its worth does,
  which is in units of `10 ^ -28`.
-/
theorem worth_mul_le_iff
    (hPlaces : places ≤ maxScale) :
    worth (m, places) * d ≤ n * 10 ^ maxScale ↔
      m * d ≤ n * 10 ^ places := by
  rw [worth_mul_right, ← mul_ten_pow n hPlaces]
  exact Nat.mul_le_mul_right_iff (ten_pow_pos _)

theorem le_worth_mul_iff
    (hPlaces : places ≤ maxScale) :
    n * 10 ^ maxScale ≤ worth (m, places) * d ↔
      n * 10 ^ places ≤ m * d := by
  rw [worth_mul_right, ← mul_ten_pow n hPlaces]
  exact Nat.mul_le_mul_right_iff (ten_pow_pos _)

/- A decimal up to the exact quotient. -/
theorem le_worth
    (h : Rounds n d parts)
    (hPos : 0 < d)
    (hShort : m < bound)
    (hPlaces : places ≤ maxScale)
    (hLe : m * d ≤ n * 10 ^ places) :
    worth (m, places) ≤ worth parts := by
  rcases Nat.lt_or_ge parts.2 places with hMore | hKept
  · rcases h.full with hExact | hAll | hFull
    · have hWhole : n * 10 ^ maxScale ≤ worth parts * d :=
        (le_worth_mul_iff h.places_le).mpr
          (h.mul_eq hPos hExact).ge
      have hUnits := (worth_mul_le_iff hPlaces).mpr hLe
      exact Nat.le_of_mul_le_mul_right (hUnits.trans hWhole) hPos
    · omega
    · exact
        worth_le_of_long hShort hPlaces hMore (h.long hPos hFull)
  · rw [← worth_mul m hKept h.places_le, worth_le_iff, h.rounded]
    apply le_roundHalfEven hPos
    calc m * 10 ^ (parts.2 - places) * d
        = m * d * 10 ^ (parts.2 - places) :=
          Nat.mul_right_comm m _ d
      _ ≤ n * 10 ^ places * 10 ^ (parts.2 - places) :=
          Nat.mul_le_mul_right _ hLe
      _ = n * 10 ^ parts.2 := mul_ten_pow n hKept

/- A decimal from the exact quotient on. -/
theorem worth_le
    (h : Rounds n d parts)
    (hPos : 0 < d)
    (hShort : m < bound)
    (hPlaces : places ≤ maxScale)
    (hLe : n * 10 ^ places ≤ m * d) :
    worth parts ≤ worth (m, places) := by
  rcases Nat.lt_or_ge parts.2 places with hMore | hKept
  · rcases h.full with hExact | hAll | hFull
    · have hWhole : worth parts * d ≤ n * 10 ^ maxScale :=
        (worth_mul_le_iff h.places_le).mpr
          (h.mul_eq hPos hExact).le
      have hUnits := (le_worth_mul_iff hPlaces).mpr hLe
      exact Nat.le_of_mul_le_mul_right (hWhole.trans hUnits) hPos
    · omega
    · -- The decimal would be as long as the number.
      have hNext : n * 10 ^ (parts.2 + 1) ≤ m * d :=
        (Nat.mul_le_mul_left n
          (Nat.pow_le_pow_right (by decide) hMore)).trans hLe
      have hBound := roundHalfEven_le hPos hNext
      omega
  · rw [← worth_mul m hKept h.places_le, worth_le_iff, h.rounded]
    apply roundHalfEven_le hPos
    calc n * 10 ^ parts.2
        = n * 10 ^ places * 10 ^ (parts.2 - places) :=
          (mul_ten_pow n hKept).symm
      _ ≤ m * d * 10 ^ (parts.2 - places) :=
          Nat.mul_le_mul_right _ hLe
      _ = m * 10 ^ (parts.2 - places) * d :=
          Nat.mul_right_comm m d _

end Rounds

------------------------------------------------------------
-- Long division
------------------------------------------------------------

/-
  The quotient of two decimals without a minus sign as that of
  two whole numbers.
-/
def numerator (a b : Decimal) : Nat :=
  a.mantissa * 10 ^ b.scale

def denominator (a b : Decimal) : Nat :=
  b.mantissa * 10 ^ a.scale

/- The quotient does not exceed the largest decimal. -/
def Bounded (a b : Decimal) : Prop :=
  numerator a b ≤ (bound - 1) * denominator a b

/- A quotient and its remainder after some more digits. -/
theorem div_mod_mul
    (n : Nat)
    {d : Nat}
    (hPos : 0 < d)
    (t : Nat) :
    n / d * t + n % d * t / d = n * t / d ∧
      n % d * t % d = n * t % d := by
  have hSplit : n * t = n % d * t + n / d * t * d :=
    calc n * t = (d * (n / d) + n % d) * t := by
          rw [Nat.div_add_mod]
      _ = n % d * t + n / d * t * d := by ring
  rw [hSplit, Nat.add_mul_div_right _ _ hPos,
    Nat.add_mul_mod_self_right]
  exact ⟨Nat.add_comm _ _, rfl⟩

/- A quotient that loses its last digit. -/
theorem roundHalfEven_mul_ten
    (n d : Nat)
    (hPos : 0 < d) :
    roundHalfEven n (d * 10) =
      if n / d % 10 > 5 ∨
          (n / d % 10 = 5 ∧
            (n % d ≠ 0 ∨ n / d / 10 % 2 = 1)) then
        n / d / 10 + 1
      else
        n / d / 10 := by
  have hRest := Nat.mod_lt n hPos
  have hDigit := Nat.mod_lt (n / d) (show 0 < 10 by decide)
  unfold roundHalfEven
  rw [← Nat.div_div_eq_div_mul, Nat.mod_mul]
  generalize n / d % 10 = digit at *
  congr 1
  rw [eq_iff_iff]
  interval_cases digit <;> omega

namespace LongDivision

variable {a b : Decimal} {d : LongDivision} {k : Nat}

/- How far a quotient has room for digits. -/
theorem room_spec
    {quotient : Nat}
    (limit : Nat)
    (hShort : quotient < bound) :
    room quotient limit ≤ limit ∧
      quotient * 10 ^ room quotient limit < bound ∧
      (room quotient limit < limit →
        bound ≤ quotient * 10 ^ (room quotient limit + 1)) := by
  induction limit with
  | zero => simpa [room] using hShort
  | succ limit ih =>
      unfold room
      split
      · rename_i hFits
        exact ⟨le_refl _, hFits, fun hLess => by omega⟩
      · rename_i hLong
        refine ⟨ih.1.trans (Nat.le_succ limit), ih.2.1, ?_⟩
        intro _
        rcases Nat.lt_or_ge (room quotient limit) limit with
          hLess | hAll
        · exact ih.2.2 hLess
        · have hSame : room quotient limit = limit :=
            Nat.le_antisymm ih.1 hAll
          rw [hSame]
          exact Nat.le_of_not_lt hLong

/- How many digits are appended at once. -/
theorem widening_spec
    (hShort : d.quotient < bound)
    (hPlaces : d.places ≤ maxScale) :
    d.places + d.widening ≤ maxScale ∧
      d.widening ≤ 9 ∧
      d.quotient * 10 ^ d.widening < bound ∧
      (d.widening < 9 →
        d.places + d.widening = maxScale ∨
          bound ≤ d.quotient * 10 ^ (d.widening + 1)) := by
  rcases room_spec (min 9 ((maxScale : Int) - d.places).toNat)
      hShort with ⟨hLimit, hFits, hFull⟩
  change d.widening ≤ _ at hLimit
  change d.widening < _ → _ at hFull
  refine ⟨by omega, by omega, hFits, fun hLess => ?_⟩
  rcases Nat.lt_or_ge d.widening
      (min 9 ((maxScale : Int) - d.places).toNat) with
    hRoom | hAll
  · exact .inr (hFull hRoom)
  · left
    omega

/- The division with some more digits appended. -/
def widen (d : LongDivision) (step : Nat) : LongDivision :=
  { d with
    quotient :=
      d.quotient * 10 ^ step
        + d.remainder * 10 ^ step / d.divisor
    remainder := d.remainder * 10 ^ step % d.divisor
    places := d.places + step }

/- A division under way, with `k` digits appended. -/
structure Under (a b : Decimal) (k : Nat) (d : LongDivision) :
    Prop where
  divisor_eq : d.divisor = b.mantissa
  quotient_eq : d.quotient = a.mantissa * 10 ^ k / b.mantissa
  remainder_eq : d.remainder = a.mantissa * 10 ^ k % b.mantissa
  places_eq : d.places + b.scale = a.scale + k
  places_le : d.places ≤ maxScale

namespace Under

/- The division at its beginning. -/
theorem start
    (a b : Decimal) :
    Under a b 0
      { divisor := b.mantissa
        quotient := a.mantissa / b.mantissa
        remainder := a.mantissa % b.mantissa
        places := (a.scale : Int) - b.scale } where
  divisor_eq := rfl
  quotient_eq := by simp
  remainder_eq := by simp
  places_eq := by simp
  places_le := by
    have hScale := a.scale_le
    change (a.scale : Int) - b.scale ≤ 28
    omega

theorem widen
    (h : Under a b k d)
    (hPos : 0 < b.mantissa)
    {step : Nat}
    (hPlaces : d.places + step ≤ maxScale) :
    Under a b (k + step) (d.widen step) := by
  have hDigits :=
    div_mod_mul (a.mantissa * 10 ^ k) hPos (10 ^ step)
  rw [Nat.mul_assoc, ← Nat.pow_add, ← h.quotient_eq,
    ← h.remainder_eq, ← h.divisor_eq] at hDigits
  exact
    { divisor_eq := h.divisor_eq
      quotient_eq := h.divisor_eq ▸ hDigits.1
      remainder_eq := h.divisor_eq ▸ hDigits.2
      places_eq := by
        have hScales := h.places_eq
        simp only [LongDivision.widen]
        omega
      places_le := hPlaces }

/- Digits that end before the point leave the quotient short. -/
theorem quotient_mul_lt
    (h : Under a b k d)
    (hPos : 0 < b.mantissa)
    (hBounded : Bounded a b)
    {t : Nat}
    (hWhole : d.places + t ≤ 0) :
    d.quotient * 10 ^ t < bound := by
  have hQuotient :
      d.quotient * b.mantissa ≤ a.mantissa * 10 ^ k := by
    rw [h.quotient_eq]
    exact Nat.div_mul_le_self _ _
  have hDigits : k + t + a.scale ≤ b.scale := by
    have hScales := h.places_eq
    omega
  have hUnits :
      d.quotient * 10 ^ t * b.mantissa * 10 ^ a.scale ≤
        (bound - 1) * b.mantissa * 10 ^ a.scale :=
    calc d.quotient * 10 ^ t * b.mantissa * 10 ^ a.scale
        = d.quotient * b.mantissa * 10 ^ (t + a.scale) := by
          rw [Nat.pow_add]
          ring
      _ ≤ a.mantissa * 10 ^ k * 10 ^ (t + a.scale) :=
          Nat.mul_le_mul_right _ hQuotient
      _ = a.mantissa * 10 ^ (k + t + a.scale) := by
          rw [Nat.mul_assoc, ← Nat.pow_add, Nat.add_assoc]
      _ ≤ numerator a b :=
          Nat.mul_le_mul_left _
            (Nat.pow_le_pow_right (by decide) hDigits)
      _ ≤ (bound - 1) * denominator a b := hBounded
      _ = (bound - 1) * b.mantissa * 10 ^ a.scale :=
          (Nat.mul_assoc _ _ _).symm
  have hShort : d.quotient * 10 ^ t ≤ bound - 1 :=
    Nat.le_of_mul_le_mul_right
      (Nat.le_of_mul_le_mul_right hUnits (ten_pow_pos _)) hPos
  exact Nat.lt_of_le_of_lt hShort (by decide)

section

variable {places : Nat}

theorem scale_le
    (h : Under a b k d)
    (hPlaces : d.places = places) :
    places ≤ maxScale := by
  have hScale := h.places_le
  rw [hPlaces] at hScale
  exact Int.ofNat_le.mp hScale

/- The dividend on the places of the quotient. -/
theorem numerator_eq
    (h : Under a b k d)
    (hPlaces : d.places = places) :
    numerator a b * 10 ^ places =
      a.mantissa * 10 ^ k * 10 ^ a.scale := by
  have hDigits : b.scale + places = k + a.scale := by
    have hScales := h.places_eq
    omega
  unfold numerator
  rw [Nat.mul_assoc, Nat.mul_assoc, ← Nat.pow_add,
    ← Nat.pow_add, hDigits]

/- The rounded quotient on these places. -/
theorem roundHalfEven_eq
    (h : Under a b k d)
    (hPlaces : d.places = places) :
    roundHalfEven (numerator a b * 10 ^ places)
        (denominator a b) =
      roundHalfEven (a.mantissa * 10 ^ k) b.mantissa := by
  rw [h.numerator_eq hPlaces]
  exact roundHalfEven_mul_mul _ _ (ten_pow_pos _)

/- It is found from the remainder. -/
theorem roundHalfEven_cases
    (h : Under a b k d) :
    roundHalfEven (a.mantissa * 10 ^ k) b.mantissa =
      if d.divisor < 2 * d.remainder ∨
          (2 * d.remainder = d.divisor ∧ d.quotient % 2 = 1) then
        d.quotient + 1
      else
        d.quotient := by
  rw [h.divisor_eq, h.quotient_eq, h.remainder_eq]
  rfl

/- The quotient is not rounded below itself. -/
theorem quotient_le
    (h : Under a b k d)
    (hPlaces : d.places = places) :
    d.quotient ≤
      roundHalfEven (numerator a b * 10 ^ places)
        (denominator a b) := by
  rw [h.roundHalfEven_eq hPlaces, h.quotient_eq]
  exact (roundHalfEven_bounds _ _).1

/- Digits that do not fit once more. -/
theorem long_of_next
    (h : Under a b k d)
    (hPos : 0 < b.mantissa)
    (hPlaces : d.places = places)
    (hLong : bound ≤ d.quotient * 10) :
    bound ≤
      roundHalfEven (numerator a b * 10 ^ (places + 1))
        (denominator a b) := by
  have hPositive : 0 < denominator a b :=
    Nat.mul_pos hPos (ten_pow_pos _)
  have hQuotient :
      d.quotient * denominator a b ≤
        numerator a b * 10 ^ places := by
    rw [h.numerator_eq hPlaces, h.quotient_eq]
    unfold denominator
    rw [← Nat.mul_assoc]
    exact Nat.mul_le_mul_right _ (Nat.div_mul_le_self _ _)
  refine hLong.trans (le_roundHalfEven hPositive ?_)
  rw [Nat.pow_succ, ← Nat.mul_assoc, Nat.mul_right_comm]
  exact Nat.mul_le_mul_right 10 hQuotient

end

------------------------------------------------------------
-- Endings
------------------------------------------------------------

/- The result is the quotient, rounded as it has to be. -/
def Settles (a b : Decimal) (r : Result) : Prop :=
  ∃ parts : Nat × Nat,
    r = some (parts.1, (parts.2 : Int)) ∧
      Rounds (numerator a b) (denominator a b) parts

/- Without a remainder the quotient is exact. -/
theorem exact
    (h : Under a b k d)
    (hPos : 0 < b.mantissa)
    (hShort : d.quotient < bound)
    (hNone : d.remainder = 0)
    (hPlaces : 0 ≤ d.places) :
    Settles a b (some (d.quotient, d.places)) := by
  rcases Int.eq_ofNat_of_zero_le hPlaces with ⟨places, hSome⟩
  have hDivides : b.mantissa ∣ a.mantissa * 10 ^ k :=
    Nat.dvd_of_mod_eq_zero (h.remainder_eq.symm.trans hNone)
  have hWhole :
      a.mantissa * 10 ^ k = d.quotient * b.mantissa := by
    rw [h.quotient_eq, Nat.div_mul_cancel hDivides]
  refine ⟨(d.quotient, places), by rw [hSome], ?_⟩
  exact
    { rounded := by
        rw [h.roundHalfEven_eq hSome, hWhole,
          roundHalfEven_mul _ hPos]
      short := hShort
      places_le := h.scale_le hSome
      full := by
        left
        rw [h.numerator_eq hSome]
        exact Nat.mul_dvd_mul_right hDivides _ }

/- The rounded quotient on one place less. -/
theorem roundHalfEven_fewer
    (h : Under a b k d)
    (hPos : 0 < b.mantissa)
    {left : Nat}
    (hPlaces : d.places = left + 1) :
    roundHalfEven (numerator a b * 10 ^ left)
        (denominator a b) =
      if d.quotient % 10 > 5 ∨
          (d.quotient % 10 = 5 ∧
            (d.remainder ≠ 0 ∨ d.quotient / 10 % 2 = 1)) then
        d.quotient / 10 + 1
      else
        d.quotient / 10 := by
  have hMore :
      numerator a b * 10 ^ left * 10 =
        a.mantissa * 10 ^ k * 10 ^ a.scale := by
    rw [Nat.mul_assoc, ← Nat.pow_succ]
    exact h.numerator_eq hPlaces
  have hLess :
      denominator a b * 10 = b.mantissa * 10 * 10 ^ a.scale :=
    Nat.mul_right_comm _ _ _
  rw [h.quotient_eq, h.remainder_eq,
    ← roundHalfEven_mul_ten _ _ hPos,
    ← roundHalfEven_mul_mul _ (b.mantissa * 10)
      (ten_pow_pos a.scale),
    ← hMore, ← hLess]
  exact
    (roundHalfEven_mul_mul _ _ (show 0 < 10 by decide)).symm

/- A quotient past 96 bits loses its last digit. -/
theorem narrowed
    (h : Under a b k d)
    (hPos : 0 < b.mantissa)
    (hBounded : Bounded a b)
    (hLong : bound ≤ d.quotient)
    (hNear : d.quotient < 2 * bound) :
    Settles a b
      (LongDivision.narrowed d.quotient d.places
        (d.remainder != 0)) := by
  have hPoint : 0 < d.places := by
    by_contra hBefore
    have hShort :=
      h.quotient_mul_lt hPos hBounded (t := 0) (by omega)
    rw [Nat.pow_zero, Nat.mul_one] at hShort
    omega
  obtain ⟨left, hPlaces⟩ : ∃ left : Nat, d.places = left + 1 :=
    ⟨(d.places - 1).toNat, by omega⟩
  have hResult := h.roundHalfEven_fewer hPos hPlaces
  refine
    ⟨(roundHalfEven (numerator a b * 10 ^ left)
        (denominator a b), left), ?_, ?_⟩
  · rw [hResult, hPlaces]
    unfold LongDivision.narrowed
    simp only [bne_iff_ne]
    rw [if_neg (by omega), Int.add_sub_cancel]
    split <;> rfl
  · exact
      { rounded := rfl
        short := by
          rw [hResult]
          split <;> omega
        places_le := (Nat.le_succ left).trans (h.scale_le hPlaces)
        full := by
          right; right
          exact hLong.trans (h.quotient_le hPlaces) }

/- A quotient that is rounded up to the end of 96 bits. -/
theorem carried
    (h : Under a b k d)
    (hPos : 0 < b.mantissa)
    (hBounded : Bounded a b)
    {places : Nat}
    (hPlaces : d.places = places)
    (hOver :
      roundHalfEven (numerator a b * 10 ^ places)
          (denominator a b) = bound) :
    Settles a b (LongDivision.narrowed bound d.places true) := by
  have hPositive : 0 < denominator a b :=
    Nat.mul_pos hPos (ten_pow_pos _)
  cases places with
  | zero =>
      have hMost := roundHalfEven_le hPositive hBounded
      rw [Nat.pow_zero, Nat.mul_one] at hOver
      rw [hOver] at hMost
      contradiction
  | succ left =>
      have hFewer :
          roundHalfEven (numerator a b * 10 ^ left)
              (denominator a b) = bound / 10 + 1 := by
        have hTenfold :=
          roundHalfEven_tenfold (numerator a b * 10 ^ left)
            hPositive
        have hLast : bound % 10 = 6 := by decide
        rw [Nat.mul_assoc, ← Nat.pow_succ, hOver] at hTenfold
        omega
      refine ⟨(bound / 10 + 1, left), ?_, ?_⟩
      · rw [hPlaces]
        unfold LongDivision.narrowed
        rw [if_neg (by omega), if_pos (by decide)]
        simp
      · exact
          { rounded := hFewer.symm
            short := show bound / 10 + 1 < bound by decide
            places_le :=
              (Nat.le_succ left).trans (h.scale_le hPlaces)
            full := .inr (.inr hOver.ge) }

/- The remainder rounds a quotient with no room for digits. -/
theorem rounded
    (h : Under a b k d)
    (hPos : 0 < b.mantissa)
    (hBounded : Bounded a b)
    (hShort : d.quotient < bound)
    (hPlaces : 0 ≤ d.places)
    (hRoom : d.places = maxScale ∨ bound ≤ d.quotient * 10) :
    Settles a b d.rounded := by
  rcases Int.eq_ofNat_of_zero_le hPlaces with ⟨places, hSome⟩
  have hResult :=
    (h.roundHalfEven_eq hSome).trans h.roundHalfEven_cases
  have hFull :
      places = maxScale ∨
        bound ≤
          roundHalfEven (numerator a b * 10 ^ (places + 1))
            (denominator a b) :=
    hRoom.imp (fun hAll => Int.ofNat.inj (hSome.symm.trans hAll))
      (h.long_of_next hPos hSome)
  unfold LongDivision.rounded
  simp only
  split
  · rename_i hUp
    rw [if_pos hUp] at hResult
    split
    · rename_i hFits
      refine ⟨(d.quotient + 1, places), by rw [hSome], ?_⟩
      exact ⟨hResult.symm, hFits, h.scale_le hSome, .inr hFull⟩
    · have hEnd : d.quotient + 1 = bound := by omega
      rw [hEnd] at hResult ⊢
      exact h.carried hPos hBounded hSome hResult
  · rename_i hDown
    rw [if_neg hDown] at hResult
    refine ⟨(d.quotient, places), by rw [hSome], ?_⟩
    exact ⟨hResult.symm, hShort, h.scale_le hSome, .inr hFull⟩

/- A quotient without a remainder gets zeros up to the point. -/
theorem widen_of_whole
    (hNone : d.remainder = 0)
    (step : Nat) :
    d.widen step =
      { d with
        quotient := d.quotient * 10 ^ step
        places := d.places + step } := by
  simp [LongDivision.widen, hNone]

/- The digits that are appended next to a short quotient. -/
theorem next_lt
    (h : Under a b k d)
    (hPos : 0 < b.mantissa)
    {step : Nat}
    (hStep : step ≤ 9)
    (hFits : d.quotient * 10 ^ step < bound) :
    (d.widen step).quotient < 2 * bound := by
  have hRest : d.remainder < d.divisor := by
    rw [h.remainder_eq, h.divisor_eq]
    exact Nat.mod_lt _ hPos
  have hDigits :
      d.remainder * 10 ^ step / d.divisor < 10 ^ step := by
    apply Nat.div_lt_of_lt_mul
    exact Nat.mul_lt_mul_of_pos_right hRest (ten_pow_pos _)
  have hPower : 10 ^ step ≤ 10 ^ 9 :=
    Nat.pow_le_pow_right (by decide) hStep
  have hBound : 10 ^ 9 ≤ bound := by decide
  simp only [LongDivision.widen]
  omega

/-
  The division ends with the rounded quotient.  Each round
  that does not end it adds a place.
-/
theorem run
    (h : Under a b k d)
    (hPos : 0 < b.mantissa)
    (hBounded : Bounded a b)
    (hShort : d.quotient < bound)
    {fuel : Nat}
    (hFuel : (maxScale : Int) - d.places < fuel) :
    Settles a b (d.run fuel) := by
  induction fuel generalizing d k with
  | zero =>
      have hScale := h.places_le
      omega
  | succ fuel ih =>
      have hScale := h.places_le
      unfold LongDivision.run
      simp only
      split
      · rename_i hNone
        split
        · rename_i hPoint
          exact h.exact hPos hShort hNone hPoint
        · rename_i hBefore
          generalize hStep : min 9 (-d.places).toNat = step
          have hFits : d.quotient * 10 ^ step < bound :=
            h.quotient_mul_lt hPos hBounded (by omega)
          have hNext : Under a b (k + step) (d.widen step) :=
            h.widen hPos (by omega)
          rw [widen_of_whole hNone] at hNext
          rw [if_pos hFits]
          exact ih hNext hFits (by simp only; omega)
      · rcases widening_spec hShort hScale with
          ⟨hPlaces, hMost, hFits, hFull⟩
        split
        · -- Such a quotient would exceed the largest decimal.
          rename_i hBefore
          rcases hFull hBefore.1 with hAll | hLong
          · omega
          · have hLess :=
              h.quotient_mul_lt hPos hBounded
                (t := d.widening + 1) (by omega)
            omega
        · split
          · rename_i hBefore hNoRoom
            rw [hNoRoom] at hFull hBefore
            exact
              h.rounded hPos hBounded hShort (by omega)
                (by simpa using hFull (by decide))
          · rename_i hRoom
            have hNext := h.widen hPos hPlaces
            split
            · rename_i hFitsToo
              exact ih hNext hFitsToo (by simp only; omega)
            · rename_i hLong
              exact
                hNext.narrowed hPos hBounded
                  (Nat.le_of_not_lt hLong)
                  (h.next_lt hPos hMost hFits)

end Under

------------------------------------------------------------
-- Zeros given back
------------------------------------------------------------

/- Parts of the same worth that are within range as well. -/
def Keeps (parts parts' : Nat × Nat) : Prop :=
  InRange parts maxScale →
    InRange parts' maxScale ∧ worth parts' = worth parts

theorem keeps_div
    {mantissa places count : Nat}
    (hCount : count ≤ places)
    (hZeros : mantissa % 10 ^ count = 0) :
    Keeps (mantissa, places)
      (mantissa / 10 ^ count, places - count) := by
  intro hRange
  have hWhole :
      mantissa / 10 ^ count * 10 ^ (places - (places - count)) =
        mantissa := by
    rw [Nat.sub_sub_self hCount]
    exact Nat.div_mul_cancel (Nat.dvd_of_mod_eq_zero hZeros)
  have hWorth :=
    worth_mul (mantissa / 10 ^ count) (Nat.sub_le places count)
      hRange.2
  rw [hWhole] at hWorth
  exact
    ⟨⟨(Nat.div_le_self _ _).trans_lt hRange.1,
        (Nat.sub_le _ _).trans hRange.2⟩,
      hWorth.symm⟩

theorem Keeps.trans
    {parts parts' parts'' : Nat × Nat}
    (hFirst : Keeps parts parts')
    (hSecond : Keeps parts' parts'') :
    Keeps parts parts'' := by
  intro hRange
  have hMiddle := hFirst hRange
  have hLast := hSecond hMiddle.1
  exact ⟨hLast.1, hLast.2.trans hMiddle.2⟩

theorem keeps_stripOnce
    (count : Nat)
    (parts : Nat × Nat) :
    Keeps parts (stripOnce count parts) := by
  unfold stripOnce
  split
  · rename_i hZeros
    exact keeps_div hZeros.1 hZeros.2
  · exact fun hRange => ⟨hRange, rfl⟩

theorem keeps_stripEights
    (mantissa places : Nat) :
    Keeps (mantissa, places) (stripEights mantissa places) := by
  fun_induction stripEights mantissa places with
  | case1 mantissa _ places hMany hZeros ih =>
      exact (keeps_div hMany hZeros.2).trans ih
  | case2 | case3 => exact fun hRange => ⟨hRange, rfl⟩

theorem keeps_stripped
    (mantissa places : Nat) :
    Keeps (mantissa, places) (stripped mantissa places) :=
  (((keeps_stripEights mantissa places).trans
      (keeps_stripOnce 4 _)).trans
    (keeps_stripOnce 2 _)).trans (keeps_stripOnce 1 _)

end LongDivision

------------------------------------------------------------
-- Quotients of decimals
------------------------------------------------------------

variable {a b : Decimal}

/- Parts within range are those of a decimal. -/
theorem exists_ofParts?
    {parts : Nat × Nat}
    (hRange : InRange parts maxScale) :
    ∃ c, ofParts? false parts.1 parts.2 = some c ∧
      c.units = worth parts := by
  have hParts :
      (ofParts? false parts.1 parts.2).isSome := by
    unfold ofParts?
    rw [dif_pos ⟨hRange.1, hRange.2⟩]
    rfl
  rcases Option.isSome_iff_exists.mp hParts with ⟨c, hSome⟩
  exact ⟨c, hSome, units_ofParts? hSome⟩

/- The quotient of two decimals that are not zero. -/
theorem div_rounds
    (hNumber : a.isZero = false)
    (hPos : 0 < b.mantissa)
    (hSigns : a.negative = b.negative)
    (hBounded : Bounded a b) :
    ∃ c parts,
      div a b = some c ∧ c.units = worth parts ∧
        Rounds (numerator a b) (denominator a b) parts := by
  have hShort : a.mantissa / b.mantissa < bound :=
    (Nat.div_le_self _ _).trans_lt a.mantissa_lt
  have hFuel :
      (maxScale : Int) - ((a.scale : Int) - b.scale) <
        (64 : Nat) := by
    have hScale := b.scale_le
    have hMost : maxScale = 28 := rfl
    omega
  have hRun :=
    (LongDivision.Under.start a b).run hPos hBounded hShort hFuel
  rcases hRun with ⟨parts, hResult, hRounds⟩
  have hDivisor : b.isZero = false := by
    simp [isZero, hPos.ne']
  have hSign : (a.negative != b.negative) = false := by
    simp [hSigns]
  have hRange : InRange parts maxScale :=
    ⟨hRounds.short, hRounds.places_le⟩
  have hShown :
      let shown :=
        if a.mantissa % b.mantissa = 0 then
          (parts.1, parts.2)
        else
          LongDivision.stripped parts.1 parts.2
      InRange shown maxScale ∧ worth shown = worth parts := by
    split
    · exact ⟨hRange, rfl⟩
    · exact LongDivision.keeps_stripped parts.1 parts.2 hRange
  rcases exists_ofParts? hShown.1 with ⟨c, hSome, hUnits⟩
  refine ⟨c, parts, ?_, ?_, hRounds⟩
  · unfold div
    simpa only [hDivisor, hNumber, hResult, hSign,
      Int.toNat_natCast, Bool.false_eq_true, if_false]
      using hSome
  · rw [hUnits, hShown.2]

end Decimal

end OrderWatch
