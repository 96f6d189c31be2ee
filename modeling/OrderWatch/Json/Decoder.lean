import OrderWatch.Json
import OrderWatch.Decimal.Text
import OrderWatch.Floating
import OrderWatch.Time.Rfc3339

/-
  Typed values from JSON.

  A record is written as an object of its named fields, or as
  an array of them in order.  An object may hold fields of
  other names, which are not looked at; a field of the record
  may stand in it only once.  A word of an enumeration is
  written as a string, or as an object with that name and
  `null`.

  Key definitions:
    * `Json.Decoder`
    * `Json.Record`
    * `Json.fields?`
    * `Json.word?`
    * `Json.tagged?`
-/

namespace OrderWatch

namespace Json

abbrev Decoder (α : Type) :=
  Json → Option α

------------------------------------------------------------
-- Plain values
------------------------------------------------------------

def string? : Decoder String
  | .string s => s
  | _ => none

def bool? : Decoder Bool
  | .bool b => some b
  | _ => none

/- A whole number below `2 ^ 64`. -/
def natural? : Decoder Nat
  | .number (.natural n) => some n
  | _ => none

/- A whole number of 64 bits with a sign. -/
def integer? : Decoder Int
  | .number (.natural n) => if n < 2 ^ 63 then some n else none
  | .number (.negative n) => some (-(n : Int))
  | _ => none

/- Any number, as the nearest floating-point one. -/
def floating? : Decoder Float
  | .number (.natural n) => some n.toUInt64.toFloat
  | .number (.negative n) => some (-n.toUInt64.toFloat)
  | .number (.floating x) => some x
  | _ => none

/-
  A decimal from its text, from a whole number, or from the
  shortest text of a floating-point number.
-/
def decimal? : Decoder Decimal
  | .string (some s) => Decimal.read? s.toList
  | .number (.natural n) => Decimal.ofInt? n
  | .number (.negative n) => Decimal.ofInt? (-(n : Int))
  | .number (.floating x) => Decimal.read? (Floating.text x)
  | _ => none

/- A moment from its text. -/
def moment? : Decoder Time.Moment
  | .string (some s) => Time.Moment.read? s.toList
  | _ => none

/- A value, or `null` for none. -/
def orNull
    {α : Type}
    (decode : Decoder α) : Decoder (Option α)
  | .null => some none
  | j => (decode j).map some

/- The items of an array, all of one type. -/
def list? {α : Type} (decode : Decoder α) : Decoder (List α)
  | .array items => items.mapM decode
  | _ => none

/- The fields of an object, all of one type, in order. -/
def entries?
    {α : Type}
    (decode : Decoder α) : Decoder (List (String × α))
  | .object fields =>
      fields.mapM fun (name, value) => do
        return (← name, ← decode value)
  | _ => none

------------------------------------------------------------
-- Records
------------------------------------------------------------

/-
  The fields of a record as they were found, in the order in
  which the record declares them.
-/
structure Record where
  positional : Bool
  values : List (Option Json)

/- The value of a field that stands once among others. -/
def lookup?
    (name : String) :
    List (Option String × Json) → Option Json
  | [] => none
  | (other, value) :: rest =>
      if other = some name then
        some value
      else
        lookup? name rest

/-
  The fields of the given names.  An object has none of them
  twice; an array has no more items than names.
-/
def fields? (names : List String) : Decoder Record
  | .object fields =>
      let found := fields.map Prod.fst
      if found.all Option.isSome
          ∧ names.all (fun n => found.count (some n) ≤ 1) then
        some ⟨false, names.map fun n => lookup? n fields⟩
      else
        none
  | .array items =>
      if items.length ≤ names.length then
        some ⟨true,
          (List.range names.length).map fun i => items[i]?⟩
      else
        none
  | _ => none

namespace Record

/- The field at a place, if it was found. -/
def at? (r : Record) (i : Nat) : Option Json :=
  (r.values[i]?).join

/- A field that has to be there. -/
def required
    {α : Type}
    (r : Record)
    (i : Nat)
    (decode : Decoder α) : Option α :=
  r.at? i >>= decode

/-
  A field that may be `null`, and in an object may be left
  out.
-/
def nullable
    {α : Type}
    (r : Record)
    (i : Nat)
    (decode : Decoder α) : Option (Option α) :=
  match r.at? i with
  | some j => orNull decode j
  | none => if r.positional then none else some none

/- A field that may be left out for a value of its own. -/
def withDefault
    {α : Type}
    (r : Record)
    (i : Nat)
    (default : α)
    (decode : Decoder α) : Option α :=
  match r.at? i with
  | some j => decode j
  | none => some default

end Record

------------------------------------------------------------
-- Enumerations
------------------------------------------------------------

/- A word of an enumeration. -/
def word?
    {α : Type}
    (read : String → Option α) : Decoder α
  | .string (some s) => read s
  | .object [(some s, .null)] => read s
  | _ => none

/-
  A value that is one of several records, told apart by a
  field with a tag.  The value is read whole, so nothing in
  it may be unreadable or nested too deep.  An array has the
  tag as its first item.  The rest is what is left without
  the tag.
-/
def tagged? (tag : String) : Decoder (String × Json)
  | .object fields =>
      let j := Json.object fields
      if j.isReadable ∧ j.depth ≤ maxDepth
          ∧ (fields.map Prod.fst).count (some tag) = 1 then
        match lookup? tag fields with
        | some (.string (some name)) =>
            some (name,
              .object (fields.filter fun f => f.1 != some tag))
        | _ => none
      else
        none
  | .array (.string (some name) :: items) =>
      let j := Json.array items
      if j.isReadable ∧ j.depth ≤ maxDepth then
        some (name, j)
      else
        none
  | _ => none

/-
  A record without fields behind a tag: anything in an
  object, but nothing in an array.
-/
def nothing? : Decoder Unit
  | .object _ => some ()
  | .array [] => some ()
  | _ => none

end Json

end OrderWatch
