import OrderWatch.Decimal
import OrderWatch.Text.Digits

/-
  The text of decimals.

  A decimal is written with exactly as many fraction digits
  as its scale.  It is read from digits with one optional
  point and sign; underscores may stand after the first
  digit.  The first digit that does not fit any more rounds
  the number, half upwards, and those after it count for
  nothing.  A text that is no plain number may be one with an
  exponent.

  Key definitions:
    * `Decimal.text`
    * `Decimal.readPlain?`
    * `Decimal.readExponent?`
    * `Decimal.read?`
-/

namespace OrderWatch

namespace Decimal

open Text

------------------------------------------------------------
-- Writing
------------------------------------------------------------

/- The digits of a decimal, with its sign and its point. -/
def text (d : Decimal) : List Char :=
  let digits := pointed d.mantissa d.scale
  if d.negative then '-' :: digits else digits

instance : ToString Decimal :=
  ⟨fun d => String.ofList d.text⟩

------------------------------------------------------------
-- Reading plain numbers
------------------------------------------------------------

/-
  A number whose further fraction digits no longer fit.  If
  the first one is five or more, it rounds the number up; the
  carry past 96 bits costs a fraction digit, if there is one.
-/
def roundedBy
    (negative : Bool)
    (mantissa scale : Nat)
    (further : List Char) : Option Decimal :=
  let first? := further.head?.bind digit?
  if !further.all (fun c => isDigit c || c = '_') then
    none
  else if !first?.any (5 ≤ ·) then
    ofParts? negative mantissa scale
  else if mantissa + 1 < bound then
    ofParts? negative (mantissa + 1) scale
  else if scale = 0 then
    none
  else
    ofParts? negative ((mantissa + 5) / 10) (scale - 1)

/-
  The rest of a plain number.  `point` tells whether the
  point has been read, `started` whether a digit
  has.
-/
def readDigits
    (negative point started : Bool)
    (mantissa scale : Nat) : List Char → Option Decimal
  | [] =>
      if started then
        ofParts? negative mantissa scale
      else
        none
  | c :: rest =>
      match digit? c with
      | some d =>
          let wider := mantissa * 10 + d
          let scale' := if point then scale + 1 else 0
          if wider < bound then
            if point && maxScale ≤ scale' then
              roundedBy negative wider scale' rest
            else
              readDigits negative point true wider scale' rest
          else if point then
            roundedBy negative mantissa scale (c :: rest)
          else
            none
      | none =>
          if c = '.' ∧ !point then
            readDigits negative true started
              mantissa scale rest
          else if c = '_' ∧ started then
            readDigits negative point started
              mantissa scale rest
          else
            none

/- A number without an exponent. -/
def readPlain? : List Char → Option Decimal
  | '-' :: rest => readDigits true false false 0 0 rest
  | '+' :: rest => readDigits false false false 0 0 rest
  | cs => readDigits false false false 0 0 cs

------------------------------------------------------------
-- Reading numbers with an exponent
------------------------------------------------------------

/- The digits of an exponent, after an optional plus sign. -/
def readPower? : List Char → Option Nat
  | '+' :: rest => readNat? rest
  | cs => readNat? cs

/-
  The same number with its point moved to the left.  Digits
  that come past the last place are rounded off, half
  upwards.
-/
def shiftedDown (d : Decimal) (places : Nat) : Option Decimal :=
  let past := d.scale + places - maxScale
  ofParts? d.negative
    ((d.mantissa + 10 ^ past / 2) / 10 ^ past)
    (d.scale + places - past)

/-
  The same number with its point moved to the right.  Past
  the last digit zeros are added.
-/
def shiftedUp (d : Decimal) (places : Nat) : Option Decimal :=
  if places ≤ d.scale then
    ofParts? d.negative d.mantissa (d.scale - places)
  else
    ofParts? d.negative
      (d.mantissa * 10 ^ (places - d.scale)) 0

/-
  A plain number times a power of ten, the power at most 28
  either way.
-/
def readExponent? (cs : List Char) : Option Decimal :=
  let isMark := fun c => c == 'e' || c == 'E'
  match cs.span (fun c => !isMark c) with
  | (_, []) => none
  | (base, _ :: power) =>
      match readPlain? base with
      | none => none
      | some d =>
          let (down, digits) :=
            match power with
            | '-' :: digits => (true, digits)
            | digits => (false, digits)
          match readPower? digits with
          | none => none
          | some places =>
              if down then
                if places ≤ maxScale then
                  d.shiftedDown places
                else
                  none
              else if d.scale < places ∧ maxScale < places then
                none
              else
                d.shiftedUp places

/- A decimal from its text. -/
def read? (cs : List Char) : Option Decimal :=
  match readPlain? cs with
  | some d => some d
  | none => readExponent? cs

end Decimal

end OrderWatch
