import OrderWatch.Power
import OrderWatch.Text.Digits

/-
  Network addresses: a host and a port.

  A host has four octets, or eight groups of sixteen bits and
  possibly the number of a scope.  The groups are written in
  brackets; the first of the longest runs of two or more zero
  groups is written as two colons, and the groups that stand
  for a host of four octets end in these.

  Key definitions:
    * `Host`
    * `Address`
    * `Address.read?`
    * `Address.text`
-/

namespace OrderWatch

inductive Host where
  | octets (parts : Vector UInt8 4)
  | groups (parts : Vector UInt16 8)
deriving DecidableEq

structure Address where
  host : Host
  /- The scope of a host with groups, zero if none is named. -/
  scope : UInt32
  port : UInt16
deriving DecidableEq

namespace Address

open Text

/- A reader of the start of a text; it answers the rest. -/
abbrev Reader (α : Type) :=
  List Char → Option (α × List Char)

------------------------------------------------------------
-- Numbers
------------------------------------------------------------

/- A character that has to stand here. -/
def mark? (c : Char) : Reader Unit
  | d :: rest => if d = c then some ((), rest) else none
  | [] => none

/- A decimal number below a bound, leading zeros or not. -/
def decimal? (bound : Nat) : Reader Nat := fun cs =>
  let (digits, rest) := spanDigits cs
  if digits.isEmpty || ofDigits digits ≥ bound then
    none
  else
    some (ofDigits digits, rest)

/- Up to three digits without a leading zero, below 256. -/
def octet? : Reader Nat := fun cs =>
  let (digits, rest) := spanDigits cs
  let padded := digits.length > 1 && digits.head? == some '0'
  if digits.length > 3 || padded then
    none
  else
    (decimal? 256 digits).map fun (n, _) => (n, rest)

/- One to four hexadecimal digits. -/
def group? : Reader Nat := fun cs =>
  let (digits, rest) := cs.span fun c => (hexDigit? c).isSome
  if digits.length > 4 then
    none
  else
    (readNatBase? 16 digits).map fun n => (n, rest)

/- A reader after a colon, unless it is the first one. -/
def afterColon
    {α : Type}
    (isFirst : Bool)
    (read : Reader α) : Reader α := fun cs =>
  if isFirst then
    read cs
  else
    (mark? ':' cs).bind fun (_, rest) => read rest

------------------------------------------------------------
-- Hosts
------------------------------------------------------------

/- Four octets with points between them. -/
def octets? : Reader (List Nat) := fun cs => do
  let (a, cs) ← octet? cs
  let (_, cs) ← mark? '.' cs
  let (b, cs) ← octet? cs
  let (_, cs) ← mark? '.' cs
  let (c, cs) ← octet? cs
  let (_, cs) ← mark? '.' cs
  let (d, cs) ← octet? cs
  return ([a, b, c, d], cs)

/- Four octets as two groups. -/
def pairUp : List Nat → List Nat
  | a :: b :: rest => (a * 256 + b) :: pairUp rest
  | _ => []

/-
  As many groups as there are, up to a number.  Four octets
  may stand for the last two; the second answer is whether
  they did.
-/
def groups
    (isFirst : Bool) :
    Nat → List Char → (List Nat × Bool) × List Char
  | 0, cs => (([], false), cs)
  | room + 1, cs =>
      let octets :=
        if room = 0 then none else afterColon isFirst octets? cs
      match octets with
      | some (parts, rest) => ((pairUp parts, true), rest)
      | none =>
          match afterColon isFirst group? cs with
          | some (g, rest) =>
              let ((gs, ended), rest) := groups false room rest
              ((g :: gs, ended), rest)
          | none => (([], false), cs)

/- Eight groups, or fewer around two colons. -/
def eightGroups? : Reader (List Nat) := fun cs => do
  let ((front, ended), cs) := groups true 8 cs
  if front.length = 8 then
    return (front, cs)
  else if ended then
    none
  else
    let (_, cs) ← mark? ':' cs
    let (_, cs) ← mark? ':' cs
    let ((back, _), cs) := groups true (7 - front.length) cs
    let zeros := 8 - front.length - back.length
    return (front ++ List.replicate zeros 0 ++ back, cs)

/- The number of a scope after a percent sign, or none. -/
def spanScope : List Char → UInt32 × List Char
  | '%' :: cs =>
      match decimal? (2 ^ 32) cs with
      | some (n, rest) => (n.toUInt32, rest)
      | none => (0, '%' :: cs)
  | cs => (0, cs)

------------------------------------------------------------
-- Addresses
------------------------------------------------------------

/- The port, which ends the text. -/
def port? (cs : List Char) : Option UInt16 := do
  let (_, cs) ← mark? ':' cs
  let (n, rest) ← decimal? (2 ^ 16) cs
  if rest.isEmpty then
    return n.toUInt16
  else
    none

/- An address whose host has four octets. -/
def readOctets? (cs : List Char) : Option Address := do
  let (parts, cs) ← octets? cs
  return {
    host :=
      .octets (.ofFn fun i => (parts.getD i 0).toUInt8)
    scope := 0
    port := ← port? cs }

/- An address whose host has groups in brackets. -/
def readGroups? (cs : List Char) : Option Address := do
  let (_, cs) ← mark? '[' cs
  let (parts, cs) ← eightGroups? cs
  let (scope, cs) := spanScope cs
  let (_, cs) ← mark? ']' cs
  return {
    host :=
      .groups (.ofFn fun i => (parts.getD i 0).toUInt16)
    scope
    port := ← port? cs }

/- A whole text as an address. -/
def read? (s : String) : Option Address :=
  (readOctets? s.toList).or (readGroups? s.toList)

/- Whether the host has groups. -/
def hasGroups (a : Address) : Bool :=
  match a.host with
  | .octets _ => false
  | .groups _ => true

end Address

------------------------------------------------------------
-- Writing
------------------------------------------------------------

namespace Host

open Text

/- Numbers with a character between them. -/
def separated
    (c : Char)
    (write : Nat → List Char)
    (parts : List Nat) : List Char :=
  (parts.map write).intersperse [c] |>.flatten

/- The length of the run of zeros at the start. -/
def zeroRun (parts : List Nat) : Nat :=
  (parts.takeWhile (· = 0)).length

/- The first of the longest runs of zeros: place and length. -/
def longestRun (parts : List Nat) : Nat × Nat :=
  (List.range parts.length).foldl
    (fun best i =>
      let n := zeroRun (parts.drop i)
      if n > best.2 then (i, n) else best)
    (0, 0)

/- The octets that the groups stand for, if they do. -/
def mapped? : List Nat → Option (List Nat)
  | [0, 0, 0, 0, 0, 0xffff, a, b] =>
      some [a / 256, a % 256, b / 256, b % 256]
  | _ => none

/- Groups as text, without brackets. -/
def groupText (parts : List Nat) : List Char :=
  match mapped? parts with
  | some four => "::ffff:".toList ++ separated '.' natText four
  | none =>
      let (place, length) := longestRun parts
      if length > 1 then
        separated ':' hexText (parts.take place) ++ [':', ':']
          ++ separated ':' hexText (parts.drop (place + length))
      else
        separated ':' hexText parts

def chars : Host → List Char
  | .octets parts =>
      separated '.' natText (parts.toList.map UInt8.toNat)
  | .groups parts =>
      groupText (parts.toList.map UInt16.toNat)

def text (h : Host) : String :=
  String.ofList h.chars

end Host

namespace Address

open Text

/- A scope of zero is not written. -/
def text (a : Address) : String :=
  let port := ':' :: natText a.port.toNat
  let scope :=
    if a.scope = 0 then [] else '%' :: natText a.scope.toNat
  String.ofList (match a.host with
    | .octets _ => a.host.chars ++ port
    | .groups _ => '[' :: a.host.chars ++ scope ++ ']' :: port)

/- What is said about a text that is no address. -/
def fault (s : String) : String :=
  s!"metrics configuration error: invalid listen address '{s}'"
    ++ ": invalid socket address syntax"

end Address

end OrderWatch
