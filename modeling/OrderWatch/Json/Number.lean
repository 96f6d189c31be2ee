import OrderWatch.Json
import OrderWatch.Power
import OrderWatch.Text.Digits

/-
  The value of a JSON number from its digits.

  Digits are gathered into a 64-bit whole number for as long
  as they fit; the digits left out only move the point.  A
  whole number that fits is exact.  Any other one is the
  gathered number times or divided by a power of ten, both as
  floating-point numbers, which is not always the nearest
  floating-point number to the text.

  Key definitions:
    * `Json.Number.gather`
    * `Json.Number.scaled`
    * `Json.Number.ofDigits`
-/

namespace OrderWatch

namespace Json

namespace Number

open Text

/-
  A number extended by digits for as long as it stays below
  `2 ^ 64`, with the count of the digits taken.
-/
def gather (n : Nat) : List Char → Nat × Nat
  | [] => (n, 0)
  | c :: rest =>
      let wider := n * 10 + (digit? c).getD 0
      if wider < 2 ^ 64 then
        let (m, taken) := gather wider rest
        (m, taken + 1)
      else
        (n, 0)

/- A power of ten as a floating-point number. -/
def powerOfTen (n : Nat) : Float :=
  Float.ofScientific 1 false n

/-
  A number divided by a power of ten, by at most `10 ^ 308`
  at a time, until nothing of it is left.
-/
def divided (x : Float) (power : Nat) : Float :=
  if h : power ≤ 308 then
    x / powerOfTen power
  else if x == 0 then
    x
  else
    divided (x / powerOfTen 308) (power - 308)
termination_by power

/-
  A number times a power of ten.  There is none beyond the
  range of floating point.
-/
def scaled (n : Nat) (power : Int) : Option Float :=
  let x := n.toUInt64.toFloat
  if power < 0 then
    some (divided x power.natAbs)
  else if power ≤ 308 then
    let y := x * powerOfTen power.toNat
    if y.isInf then none else some y
  else if n = 0 then
    some x
  else
    none

/- A floating-point number with its sign. -/
def floatingOf
    (negative : Bool)
    (x : Option Float) : Number :=
  match x with
  | none => .beyond
  | some x => .floating (if negative then -x else x)

/- A whole number without point and exponent. -/
def wholeOf (negative : Bool) (n : Nat) : Number :=
  if !negative then
    .natural n
  else if n = 0 ∨ 2 ^ 63 < n then
    .floating (-n.toUInt64.toFloat)
  else
    .negative n

/-
  The number with the given sign, digits before and after the
  point, and exponent.  An exponent past 31 bits leaves zero
  or no number.
-/
def ofDigits
    (negative : Bool)
    (whole : List Char)
    (fraction : Option (List Char))
    (exponent : Option (Bool × List Char)) : Number :=
  let (n, taken) := gather 0 whole
  let left := whole.length - taken
  match fraction, exponent with
  | none, none =>
      if left = 0 then
        wholeOf negative n
      else
        floatingOf negative (scaled n left)
  | _, _ =>
      let (n, places) := gather n (fraction.getD [])
      let power : Int := (left : Int) - places
      match exponent with
      | none => floatingOf negative (scaled n power)
      | some (down, digits) =>
          let e := Text.ofDigits digits
          if 2 ^ 31 ≤ e then
            if n ≠ 0 ∧ !down then
              .beyond
            else
              floatingOf negative (some 0)
          else
            floatingOf negative
              (scaled n (if down then power - e else power + e))

end Number

end Json

end OrderWatch
