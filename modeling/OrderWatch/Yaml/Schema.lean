import OrderWatch.Floating

/-
  What the text of a YAML scalar may stand for.

  A text can be read as nothing, as a truth value, as a whole
  number or as a floating-point number.  Some texts can be
  read in several ways; which one is taken is not settled
  here.

  Key definitions:
    * `Yaml.isNull`, `Yaml.bool?`
    * `Yaml.natural?`, `Yaml.integer?`
    * `Yaml.floating?`
-/

namespace OrderWatch

namespace Yaml

open Text

/- Whether a text stands for nothing. -/
def isNull (text : List Char) : Bool :=
  text.isEmpty
    || String.ofList text ∈ ["~", "null", "Null", "NULL"]

/- A truth value by one of its words, in upper or lower case. -/
def bool? (text : List Char) : Option Bool :=
  let word := String.ofList (text.map Char.toLower)
  if word ∈ ["true", "yes", "on", "y"] then
    some true
  else if word ∈ ["false", "no", "off", "n"] then
    some false
  else
    none

------------------------------------------------------------
-- Whole numbers
------------------------------------------------------------

/- Whether a text is of several digits and starts with zero. -/
def hasLeadingZero (text : List Char) : Bool :=
  1 < text.length && text.head? == some '0' && text.all isDigit

/- A whole number in a base, if the text names that base. -/
def based? (mark : Char) (base : Nat) : List Char → Option Nat
  | '0' :: m :: digits =>
      if m = mark then readNatBase? base digits else none
  | _ => none

/-
  A number without a sign: decimal without leading zeros, or
  in base 16, 8 or 2 after `0x`, `0o` or `0b`.
-/
def magnitude? (text : List Char) : Option Nat :=
  let plain :=
    if hasLeadingZero text then none else readNat? text
  (based? 'x' 16 text).or ((based? 'o' 8 text).or
    ((based? 'b' 2 text).or plain))

/- A whole number below `2 ^ 64`. -/
def natural? (text : List Char) : Option Nat := do
  let n ←
    magnitude? (if text.head? = some '+' then text.tail else text)
  if n < 2 ^ 64 then return n else none

/- A whole number from `-2 ^ 63` on and below `2 ^ 64`. -/
def integer? : List Char → Option Int
  | '-' :: text => do
      let n ← magnitude? text
      if n ≤ 2 ^ 63 then return -(n : Int) else none
  | text => (natural? text).map Int.ofNat

------------------------------------------------------------
-- Floating-point numbers
------------------------------------------------------------

/- The positive infinity. -/
def infinity : Float :=
  1.0 / 0.0

/-
  A floating-point number: a decimal one that is not too
  large, an infinity, or no number.
-/
def floating? (text : List Char) : Option Float :=
  let unsigned :=
    if text.head? = some '+' then text.tail else text
  if String.ofList unsigned ∈ [".inf", ".Inf", ".INF"] then
    some infinity
  else if String.ofList text ∈ ["-.inf", "-.Inf", "-.INF"] then
    some (-infinity)
  else if String.ofList text ∈ [".nan", ".NaN", ".NAN"] then
    some (infinity - infinity)
  else if text.head? = some '+'
      ∧ (unsigned.head? = some '+'
        ∨ unsigned.head? = some '-') then
    none
  else
    (Floating.read? unsigned).filter Float.isFinite

end Yaml

end OrderWatch
