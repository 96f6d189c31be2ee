import OrderWatch.Power
import OrderWatch.Text.Digits

/-
  Binary floating-point numbers as exact fractions and as
  decimal text.

  A finite number is `mantissa * 2 ^ exponent`.  Its shortest
  text is the one with the fewest digits that lies nearer to
  it than to any other number, and of those the nearest one;
  it is written without an exponent.

  Key definitions:
    * `Floating.Parts`
    * `Floating.parts`
    * `Floating.shortest`
    * `Floating.text`
    * `Floating.ofDecimal`
    * `Floating.read?`
-/

namespace OrderWatch

namespace Floating

open Text

------------------------------------------------------------
-- Exact value
------------------------------------------------------------

/- A floating-point number taken apart. -/
inductive Parts where
  | notANumber
  | infinite (negative : Bool)
  | finite (negative : Bool) (mantissa : Nat) (exponent : Int)
deriving DecidableEq, Repr

/- The parts of a number, read off its 64 bits. -/
def parts (x : Float) : Parts :=
  let bits := x.toBits.toNat
  let negative := decide (2 ^ 63 ≤ bits)
  let field : Nat := bits / 2 ^ 52 % 2 ^ 11
  let fraction : Nat := bits % 2 ^ 52
  if field = 2047 then
    if fraction = 0 then .infinite negative else .notANumber
  else if field = 0 then
    .finite negative fraction (-1074)
  else
    .finite negative (fraction + 2 ^ 52) ((field : Int) - 1075)

/- `mantissa * 2 ^ exponent` as numerator and denominator. -/
def ratio (mantissa : Nat) (exponent : Int) : Nat × Nat :=
  if 0 ≤ exponent then
    (mantissa * 2 ^ exponent.toNat, 1)
  else
    (mantissa, 2 ^ (-exponent).toNat)

------------------------------------------------------------
-- Shortest digits
------------------------------------------------------------

/-
  The numbers that read back as one floating-point number:
  those between `low / scale` and `high / scale`, the ends
  included if `closed`.  `value / scale` is the number.
-/
structure Cell where
  low : Nat
  value : Nat
  high : Nat
  scale : Nat
  closed : Bool

/- The cell of a positive finite number. -/
def cell (mantissa : Nat) (exponent : Int) : Cell :=
  let below :=
    if mantissa = 2 ^ 52 ∧ -1074 < exponent then 1 else 2
  let (unit, scale) := ratio 1 (exponent - 2)
  { low := (4 * mantissa - below) * unit
    value := 4 * mantissa * unit
    high := (4 * mantissa + 2) * unit
    scale
    closed := mantissa % 2 = 0 }

/- Whether `digits * 10 ^ power` lies in the cell. -/
def Cell.holds
    (c : Cell)
    (digits : Nat)
    (power : Int) : Bool :=
  let x := digits * 10 ^ power.toNat * c.scale
  let unit := 10 ^ (-power).toNat
  if c.closed then
    c.low * unit ≤ x && x ≤ c.high * unit
  else
    c.low * unit < x && x < c.high * unit

/-
  The digits on the grid of a power of ten that lie in the
  cell nearest to its value, the upper ones on a tie.
-/
def Cell.nearest? (c : Cell) (power : Int) : Option Nat :=
  let unit := 10 ^ power.toNat * c.scale
  let value := c.value * 10 ^ (-power).toNat
  let down := value / unit
  let up := down + 1
  match c.holds down power, c.holds up power with
  | true, true =>
      some (if value - down * unit < up * unit - value then
        down else up)
  | true, false => some down
  | false, true => some up
  | false, false => none

/-
  The first hit on ever finer grids, with its power of ten.
-/
def Cell.search (c : Cell) : Nat → Int → Nat × Int
  | 0, power => (0, power)
  | steps + 1, power =>
      match c.nearest? power with
      | some digits => (digits, power)
      | none => c.search steps (power - 1)

/-
  The power of ten of the first digit of a positive number
  is one below its count of digits before the point; grids
  are tried from one above it.
-/
def shortest
    (mantissa : Nat)
    (exponent : Int) : Nat × Int :=
  let (n, d) := ratio mantissa exponent
  let first : Int :=
    if d ≤ n then
      (natText (n / d)).length
    else
      -((natText (d / n)).length : Int) + 1
  (cell mantissa exponent).search 20 first

------------------------------------------------------------
-- Text
------------------------------------------------------------

/- `digits * 10 ^ power` without an exponent. -/
def positional (digits : Nat) (power : Int) : List Char :=
  if digits = 0 then
    ['0']
  else if 0 ≤ power then
    natText digits ++ List.replicate power.toNat '0'
  else
    pointed digits (-power).toNat

/- The shortest text of a number, without an exponent. -/
def text (x : Float) : List Char :=
  let sign := fun (negative : Bool) (cs : List Char) =>
    if negative then '-' :: cs else cs
  match parts x with
  | .notANumber => "NaN".toList
  | .infinite negative => sign negative "inf".toList
  | .finite negative 0 _ => sign negative ['0']
  | .finite negative mantissa exponent =>
      let (digits, power) := shortest mantissa exponent
      sign negative (positional digits power)

------------------------------------------------------------
-- Reading
------------------------------------------------------------

/-
  The number nearest to `digits * 10 ^ power`.  Powers far
  outside the range of floating-point numbers are answered
  from the count of digits alone.
-/
def ofDecimal
    (negative : Bool)
    (digits : Nat)
    (power : Int) : Float :=
  let magnitude : Int := (natText digits).length + power
  let x : Float :=
    if digits = 0 ∨ magnitude < -400 then
      0.0
    else if 400 < magnitude then
      1.0 / 0.0
    else
      Float.ofScientific digits (decide (power < 0))
        power.natAbs
  if negative then -x else x

/- An exponent: an optional sign and at least one digit. -/
def readPower? : List Char → Option Int
  | '-' :: rest => (readNat? rest).map fun n => -(n : Int)
  | '+' :: rest => (readNat? rest).map fun n => (n : Int)
  | cs => (readNat? cs).map fun n => (n : Int)

/-
  A number from digits with an optional sign, point and
  exponent.  A digit must stand on one side of the point.
-/
def read? (cs : List Char) : Option Float :=
  let (negative, rest) :=
    match cs with
    | '-' :: rest => (true, rest)
    | '+' :: rest => (false, rest)
    | rest => (false, rest)
  let (whole, rest) := spanDigits rest
  let (fraction, rest) :=
    match rest with
    | '.' :: rest => spanDigits rest
    | rest => ([], rest)
  if whole.isEmpty && fraction.isEmpty then
    none
  else
    let digits := ofDigits (whole ++ fraction)
    let shift : Int := -(fraction.length : Int)
    match rest with
    | [] => some (ofDecimal negative digits shift)
    | c :: power =>
        if c = 'e' ∨ c = 'E' then
          (readPower? power).map fun p =>
            ofDecimal negative digits (shift + p)
        else
          none

end Floating

end OrderWatch
