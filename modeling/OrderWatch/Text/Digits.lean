/-
  Decimal digits as text.

  Characters are handled as lists, because every reader of
  this library walks its input from the left.

  Key definitions:
    * `digit?`
    * `ofDigits`
    * `readNat?`
    * `natText`
    * `padded`
    * `pointed`
-/

namespace OrderWatch

namespace Text

------------------------------------------------------------
-- Reading digits
------------------------------------------------------------

/- The value of a decimal digit, ASCII digits only. -/
def digit? (c : Char) : Option Nat :=
  if '0' ≤ c ∧ c ≤ '9' then
    some (c.toNat - '0'.toNat)
  else
    none

/- Whether a character is an ASCII decimal digit. -/
def isDigit (c : Char) : Bool :=
  (digit? c).isSome

/-
  The value of a hexadecimal digit, in either case, ASCII
  letters only.
-/
def hexDigit? (c : Char) : Option Nat :=
  if '0' ≤ c ∧ c ≤ '9' then
    some (c.toNat - '0'.toNat)
  else if 'a' ≤ c ∧ c ≤ 'f' then
    some (c.toNat - 'a'.toNat + 10)
  else if 'A' ≤ c ∧ c ≤ 'F' then
    some (c.toNat - 'A'.toNat + 10)
  else
    none

/-
  The number written by a list of characters, each taken as
  the digit it stands for and as zero if it is none.
-/
def ofDigits (cs : List Char) : Nat :=
  cs.foldl (fun n c => n * 10 + (digit? c).getD 0) 0

/-
  The leading digits of a text, and what follows them.
-/
def spanDigits (cs : List Char) : List Char × List Char :=
  cs.span isDigit

/-
  A whole text as a number: at least one digit and nothing
  else.
-/
def readNat? (cs : List Char) : Option Nat :=
  if cs.isEmpty || !cs.all isDigit then
    none
  else
    some (ofDigits cs)

/-
  A whole text as a number in a base up to sixteen: at least
  one digit of that base and nothing else.
-/
def readNatBase?
    (base : Nat)
    (cs : List Char) : Option Nat :=
  if cs.isEmpty then
    none
  else
    cs.foldlM
      (fun n c =>
        match hexDigit? c with
        | some d =>
            if d < base then some (n * base + d) else none
        | none => none)
      0

------------------------------------------------------------
-- Writing digits
------------------------------------------------------------

/- The decimal digits of a number, without leading zeros. -/
def natText (n : Nat) : List Char :=
  Nat.toDigits 10 n

/- A number on at least `width` digits, zeros in front. -/
def padded (width n : Nat) : List Char :=
  (natText n).leftpad width '0'

/-
  A number with a point before its last `places` digits, and
  at least one digit before the point.
-/
def pointed (n places : Nat) : List Char :=
  let digits := padded (places + 1) n
  let whole := digits.length - places
  if places = 0 then
    digits
  else
    digits.take whole ++ '.' :: digits.drop whole

------------------------------------------------------------
-- Hexadecimal
------------------------------------------------------------

/- A number in lower-case hexadecimal digits. -/
def hexText (n : Nat) : List Char :=
  Nat.toDigits 16 n

/- A number on at least `width` hexadecimal digits. -/
def hexPadded (width n : Nat) : List Char :=
  (hexText n).leftpad width '0'

end Text

end OrderWatch
