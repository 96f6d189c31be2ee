import OrderWatch.Power

/-
  Decimal amounts: a sign, a whole number of at most 96 bits,
  and the count of its fraction digits, at most 28.

  A decimal keeps its written scale, so `1.10` and `1.1` are
  two decimals of one value.  Decimals are ordered by value.
  A zero has no minus sign.

  Key definitions:
    * `Decimal`
    * `Decimal.ofParts?`
    * `Decimal.units`
    * `Decimal.roundHalfEven`
-/

namespace OrderWatch

------------------------------------------------------------
-- The type
------------------------------------------------------------

structure Decimal where
  negative : Bool
  mantissa : Nat
  scale : Nat
  mantissa_lt : mantissa < 2 ^ 96
  scale_le : scale ≤ 28
  zero_unsigned : mantissa = 0 → negative = false
deriving DecidableEq, Repr

namespace Decimal

/- One more than the largest mantissa. -/
abbrev bound : Nat :=
  2 ^ 96

/- The largest number of fraction digits. -/
abbrev maxScale : Nat :=
  28

/-
  A decimal from its parts, if they are within range.  A zero
  gets no minus sign.
-/
def ofParts?
    (negative : Bool)
    (mantissa scale : Nat) : Option Decimal :=
  if h : mantissa < 2 ^ 96 ∧ scale ≤ 28 then
    some ⟨negative && mantissa != 0, mantissa, scale, h.1, h.2,
      fun hZero => by simp [hZero]⟩
  else
    none

/- A whole number of less than 96 bits as a decimal. -/
def ofInt? (n : Int) : Option Decimal :=
  ofParts? (n < 0) n.natAbs 0

/- Zero without fraction digits. -/
def zero : Decimal :=
  ⟨false, 0, 0, by decide, by decide, fun _ => rfl⟩

instance : Inhabited Decimal :=
  ⟨zero⟩

/- The number of the opposite sign; zero has no other one. -/
instance : Neg Decimal :=
  ⟨fun d => { d with
    negative := !d.negative && d.mantissa != 0
    zero_unsigned := fun hZero => by simp [hZero] }⟩

/- Whether the value is zero. -/
def isZero (d : Decimal) : Bool :=
  d.mantissa == 0

------------------------------------------------------------
-- Comparing values
------------------------------------------------------------

/- The mantissa with the sign of the decimal. -/
def signed (d : Decimal) : Int :=
  if d.negative then -(d.mantissa : Int) else d.mantissa

/-
  The value counted in units of `10 ^ -28`, a whole number
  for every decimal.
-/
def units (d : Decimal) : Int :=
  d.signed * 10 ^ (28 - d.scale)

/- Decimals are ordered by value. -/
instance : LT Decimal :=
  ⟨fun a b => a.units < b.units⟩

instance : LE Decimal :=
  ⟨fun a b => a.units ≤ b.units⟩

instance (a b : Decimal) : Decidable (a < b) :=
  inferInstanceAs (Decidable (a.units < b.units))

instance (a b : Decimal) : Decidable (a ≤ b) :=
  inferInstanceAs (Decidable (a.units ≤ b.units))

/- Whether the value is above zero. -/
def isPositive (d : Decimal) : Bool :=
  decide (zero < d)

------------------------------------------------------------
-- Dropping fraction digits
------------------------------------------------------------

/- Half of a divisor decides; an exact half goes to even. -/
def roundHalfEven (n d : Nat) : Nat :=
  if d < 2 * (n % d) ∨
      (2 * (n % d) = d ∧ n / d % 2 = 1) then
    n / d + 1
  else
    n / d

/-
  The quotient by a divisor is rounded to one of the two
  whole numbers around it.
-/
theorem roundHalfEven_bounds
    (n d : Nat) :
    n / d ≤ roundHalfEven n d ∧
      roundHalfEven n d ≤ n / d + 1 := by
  unfold roundHalfEven
  split <;> omega

/- A multiple of the divisor is divided exactly. -/
theorem roundHalfEven_mul
    {d : Nat}
    (q : Nat)
    (h : 0 < d) :
    roundHalfEven (q * d) d = q := by
  have hRest : q * d % d = 0 := Nat.mul_mod_left q d
  unfold roundHalfEven
  rw [hRest, Nat.mul_div_cancel q h]
  split
  · omega
  · rfl

end Decimal

end OrderWatch
