import OrderWatch.Decimal

/-
  Sums, differences and products of decimals.

  The exact result is brought back to 96 bits by dropping
  fraction digits and rounding half to even.  `firstDrop`
  counts the digits to try first from the length of the
  result in bits; a result that still does not fit loses one
  more digit, and so does one that rounding carries past the
  last bit.  A result whose whole part does not fit has no
  decimal.

  Key definitions:
    * `Decimal.fit`
    * `Decimal.add`
    * `Decimal.sub`
    * `Decimal.mul`
-/

namespace OrderWatch

namespace Decimal

------------------------------------------------------------
-- Fitting a result
------------------------------------------------------------

/-
  The number of digits that are dropped at once.  For a
  number of `97 + k` bits it is one more than `k * 77 / 256`,
  which never exceeds the digits that have to go.
-/
def firstDrop (n scale : Nat) : Nat :=
  let excess := scale - maxScale
  if n < bound then
    excess
  else
    max excess ((n.log2 - 96) * 77 / 256 + 1)

/- `n` units of `10 ^ -scale`, rounded to `left` places. -/
def keeping (n scale left : Nat) : Nat :=
  roundHalfEven n (10 ^ (scale - left))

/-
  A rounded mantissa with its places.  One that rounding has
  carried past 96 bits loses another digit.
-/
def carried (mantissa left : Nat) : Option (Nat × Nat) :=
  if mantissa < bound then
    some (mantissa, left)
  else
    match left with
    | 0 => none
    | left + 1 => some (roundHalfEven mantissa 10, left)

/-
  The mantissa and places left of `n` units of `10 ^ -scale`,
  on the most places, from the given count down, that leave a
  whole part of 96 bits.
-/
def dropFrom (n scale : Nat) : Nat → Option (Nat × Nat)
  | 0 =>
      if n / 10 ^ scale < bound then
        carried (keeping n scale 0) 0
      else
        none
  | left + 1 =>
      if n / 10 ^ (scale - (left + 1)) < bound then
        carried (keeping n scale (left + 1)) (left + 1)
      else
        dropFrom n scale left

/-
  The parts of the decimal for `n` units of `10 ^ -scale`,
  digits dropped where they have to be.
-/
def fit (n scale : Nat) : Option (Nat × Nat) :=
  let drop := firstDrop n scale
  if drop = 0 then
    some (n, scale)
  else if drop ≤ scale then
    dropFrom n scale (scale - drop)
  else
    none

/- The decimal for `n` units of `10 ^ -scale`, with a sign. -/
def fitSigned
    (negative : Bool)
    (n scale : Nat) : Option Decimal :=
  match fit n scale with
  | some (mantissa, scale) => ofParts? negative mantissa scale
  | none => none

------------------------------------------------------------
-- Sums
------------------------------------------------------------

/-
  The sum of two decimals on the larger of their scales.  A
  zero operand leaves the other one as it is.
-/
def add (a b : Decimal) : Option Decimal :=
  if a.isZero then
    some b
  else if b.isZero then
    some a
  else
    let scale := max a.scale b.scale
    let x := a.mantissa * 10 ^ (scale - a.scale)
    let y := b.mantissa * 10 ^ (scale - b.scale)
    if a.negative == b.negative then
      fitSigned a.negative (x + y) scale
    else if x < y then
      fitSigned b.negative (y - x) scale
    else
      fitSigned a.negative (x - y) scale

/-
  The difference of two decimals is the sum with the second
  one's sign changed.
-/
def sub (a b : Decimal) : Option Decimal :=
  add a (-b)

------------------------------------------------------------
-- Products
------------------------------------------------------------

/- Whether a mantissa takes at most 32 bits. -/
def isSmall (d : Decimal) : Bool :=
  d.mantissa < 2 ^ 32

/-
  The product of two decimals, its scale the sum of theirs.
  A zero operand gives the plain zero, and so does a product
  of small mantissas beyond 47 places.
-/
def mul (a b : Decimal) : Option Decimal :=
  if a.isZero || b.isZero then
    some zero
  else if a.isSmall && b.isSmall
      && 47 < a.scale + b.scale then
    some zero
  else
    fitSigned (a.negative != b.negative)
      (a.mantissa * b.mantissa) (a.scale + b.scale)

end Decimal

end OrderWatch
