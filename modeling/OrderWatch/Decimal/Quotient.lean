import OrderWatch.Decimal

/-
  Quotients of decimals.

  A quotient is found by long division.  While a remainder is
  left, the quotient is widened by up to nine digits at a
  time, as many as keep it within 96 bits and 28 places; once
  no digit fits any more the remainder rounds it, half to
  even.  A quotient that was widened gives trailing zeros
  back, the eight-digit step only while its last 32 bits are
  all zero.

  Key definitions:
    * `Decimal.LongDivision`
    * `Decimal.div`
-/

namespace OrderWatch

namespace Decimal

------------------------------------------------------------
-- Long division
------------------------------------------------------------

/-
  A division under way: so far the dividend is
  `quotient * divisor + remainder` units of `10 ^ -places`.
-/
structure LongDivision where
  divisor : Nat
  quotient : Nat
  remainder : Nat
  places : Int

namespace LongDivision

/-
  The most digits, up to `limit`, by which a quotient can be
  widened within 96 bits.
-/
def room (quotient : Nat) : Nat → Nat
  | 0 => 0
  | limit + 1 =>
      if quotient * 10 ^ (limit + 1) < bound then
        limit + 1
      else
        room quotient limit

/- How many digits the quotient is widened by at once. -/
def widening (d : LongDivision) : Nat :=
  room d.quotient (min 9 ((maxScale : Int) - d.places).toNat)

/- The result of a division: a mantissa and its places. -/
abbrev Result :=
  Option (Nat × Int)

/-
  A quotient that has just passed 96 bits loses its last
  digit, rounded half to even; what else was left of the
  dividend breaks a tie upwards.
-/
def narrowed
    (quotient : Nat)
    (places : Int)
    (more : Bool) : Result :=
  let half := quotient % 10 = 5
  let down := quotient / 10
  if places ≤ 0 then
    none
  else if quotient % 10 > 5
      ∨ (half ∧ (more ∨ down % 2 = 1)) then
    some (down + 1, places - 1)
  else
    some (down, places - 1)

/- The remainder rounds a quotient that cannot be widened. -/
def rounded (d : LongDivision) : Result :=
  let twice := 2 * d.remainder
  if d.divisor < twice
      ∨ (twice = d.divisor ∧ d.quotient % 2 = 1) then
    if d.quotient + 1 < bound then
      some (d.quotient + 1, d.places)
    else
      narrowed (d.quotient + 1) d.places true
  else
    some (d.quotient, d.places)

/-
  Trailing zeros given back by a quotient of at least eight
  places, eight at a time.
-/
def stripEights (mantissa : Nat) : Nat → Nat × Nat
  | places =>
    if h : 8 ≤ places then
      if mantissa % 2 ^ 32 = 0 ∧ mantissa % 10 ^ 8 = 0 then
        stripEights (mantissa / 10 ^ 8) (places - 8)
      else
        (mantissa, places)
    else
      (mantissa, places)

/- `count` trailing zeros given back, if there are so many. -/
def stripOnce
    (count : Nat)
    (q : Nat × Nat) : Nat × Nat :=
  if count ≤ q.2 ∧ q.1 % 10 ^ count = 0 then
    (q.1 / 10 ^ count, q.2 - count)
  else
    q

/- Trailing zeros given back by eights, then 4, 2 and 1. -/
def stripped (mantissa places : Nat) : Nat × Nat :=
  stripOnce 1 (stripOnce 2 (stripOnce 4
    (stripEights mantissa places)))

/-
  The digits of a division.  Each round either ends it or
  adds at least one place; `fuel` bounds the rounds.
-/
def run : Nat → LongDivision → Result
  | 0, _ => none
  | fuel + 1, d =>
    if d.remainder = 0 then
      if 0 ≤ d.places then
        some (d.quotient, d.places)
      else
        let step := min 9 (-d.places).toNat
        let quotient := d.quotient * 10 ^ step
        if quotient < bound then
          run fuel
            { d with quotient, places := d.places + step }
        else
          none
    else
      let step := d.widening
      if step < 9 ∧ d.places + step < 0 then
        none
      else if step = 0 then
        d.rounded
      else
        let rest := d.remainder * 10 ^ step
        let quotient :=
          d.quotient * 10 ^ step + rest / d.divisor
        let remainder := rest % d.divisor
        let places := d.places + step
        if quotient < bound then
          run fuel { d with quotient, remainder, places }
        else
          narrowed quotient places (remainder != 0)

end LongDivision

------------------------------------------------------------
-- Quotients
------------------------------------------------------------

/-
  The quotient of two decimals, none if the divisor is zero
  or the whole part of the quotient does not fit.
-/
def div (a b : Decimal) : Option Decimal :=
  if b.isZero then
    none
  else if a.isZero then
    some zero
  else
    let d : LongDivision :=
      { divisor := b.mantissa
        quotient := a.mantissa / b.mantissa
        remainder := a.mantissa % b.mantissa
        places := (a.scale : Int) - b.scale }
    match d.run 64 with
    | none => none
    | some (mantissa, places) =>
        let exact := a.mantissa % b.mantissa = 0
        let (mantissa, scale) :=
          if exact then
            (mantissa, places.toNat)
          else
            LongDivision.stripped mantissa places.toNat
        ofParts? (a.negative != b.negative) mantissa scale

end Decimal

end OrderWatch
