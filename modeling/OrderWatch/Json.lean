/-
  JSON values.

  A whole number of up to 64 bits is kept exactly; any other
  number is a floating-point one.  Two things are well formed
  but have no value, and matter only where they are read: a
  number too large for floating point, and a string with an
  escape that is half of a character.

  Key definitions:
    * `Json.Number`
    * `Json`
    * `Json.depth`
    * `Json.isReadable`
-/

namespace OrderWatch

/- A number of a JSON text. -/
inductive Json.Number where
  /- A whole number below `2 ^ 64`. -/
  | natural (n : Nat)
  /- Minus a whole number from 1 to `2 ^ 63`. -/
  | negative (n : Nat)
  | floating (x : Float)
  /- A number too large for floating point. -/
  | beyond
deriving Repr

/-
  A JSON value.  A string is `none` if its escapes are not
  whole characters.
-/
inductive Json where
  | null
  | bool (b : Bool)
  | number (n : Json.Number)
  | string (s : Option String)
  | array (items : List Json)
  | object (fields : List (Option String × Json))
deriving Repr

namespace Json

instance : Inhabited Json :=
  ⟨.null⟩

/- A string value. -/
def str (s : String) : Json :=
  .string (some s)

/- A natural number as a value. -/
def nat (n : Nat) : Json :=
  .number (.natural n)

/- A whole number as a value. -/
def int (n : Int) : Json :=
  if n < 0 then
    .number (.negative n.natAbs)
  else
    nat n.natAbs

/- An object with the given names and values. -/
def record (fields : List (String × Json)) : Json :=
  .object (fields.map fun (name, value) => (some name, value))

/- A value that may be absent, `null` if it is. -/
def optional
    {α : Type}
    (encode : α → Json) : Option α → Json
  | none => .null
  | some a => encode a

------------------------------------------------------------
-- Nesting
------------------------------------------------------------

mutual

/- How deep arrays and objects are nested in a value. -/
def depth : Json → Nat
  | .array items => depthItems items + 1
  | .object fields => depthFields fields + 1
  | _ => 0

/- The deepest nesting among the items of an array. -/
def depthItems : List Json → Nat
  | [] => 0
  | j :: rest => max (depth j) (depthItems rest)

/- The deepest nesting among the fields of an object. -/
def depthFields : List (Option String × Json) → Nat
  | [] => 0
  | (_, j) :: rest => max (depth j) (depthFields rest)

end

/- The deepest nesting of a value that is read whole. -/
abbrev maxDepth : Nat :=
  127

------------------------------------------------------------
-- Readability
------------------------------------------------------------

mutual

/-
  Whether every number and every string of a value, names of
  fields included, has a value of its own.
-/
def isReadable : Json → Bool
  | .number .beyond => false
  | .string none => false
  | .array items => areReadable items
  | .object fields => haveReadable fields
  | _ => true

/- Whether all items of an array are readable. -/
def areReadable : List Json → Bool
  | [] => true
  | j :: rest => isReadable j && areReadable rest

/- Whether all fields of an object are readable. -/
def haveReadable : List (Option String × Json) → Bool
  | [] => true
  | (name, j) :: rest =>
      name.isSome && isReadable j && haveReadable rest

end

end Json

end OrderWatch
