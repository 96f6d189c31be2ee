import OrderWatch.Text.Word
import OrderWatch.Yaml.Value

/-
  Typed values from YAML.

  They can be read off nodes, where the type that is asked
  for decides what a scalar stands for, so that `5` is a
  string where a string is wanted; and off values, where this
  has been decided before.  A record is a mapping, and nothing
  at all is a record without fields.  A word of an enumeration
  is a string, or a tag or a key of nothing.

  Key definitions:
    * `Yaml.Readable`
    * `Yaml.worded?`
    * `Yaml.Record`, `Yaml.Record.withDefault`
-/

namespace OrderWatch

namespace Yaml

/- The fields of a record with their names. -/
abbrev Record (N : Type) :=
  List (String × N)

/- A form of documents that typed values are read off. -/
class Readable (N : Type) where
  string? : N → Option String
  natural? : N → Option Nat
  floating? : N → Option Float
  bool? : N → Option Bool
  /- The word of an enumeration. -/
  word? : N → Option String
  /- The fields of a record, no name twice. -/
  record? : N → Option (Record N)

------------------------------------------------------------
-- Nodes
------------------------------------------------------------

namespace Node

/- The text of any scalar. -/
def text? : Node → Option (List Char)
  | .scalar _ _ text => some text
  | _ => none

def string? (node : Node) : Option String :=
  node.text?.map String.ofList

/-
  The text of a scalar that may be of a type other than
  strings: a plain one, with no tag but that of the type.
-/
def plainText? (type : String) : Node → Option (List Char)
  | .scalar tag .plain text =>
      if tag.isEmpty
          ∨ tag = ("tag:yaml.org,2002:" ++ type).toList then
        some text
      else
        none
  | _ => none

/- Whether a node stands for nothing. -/
def isNothing : Node → Bool
  | .scalar [] .plain text => isNull text
  | _ => false

def word? : Node → Option String
  | .scalar ('!' :: name) style text =>
      if isNothing (.scalar [] style text) then
        some (String.ofList name)
      else
        none
  | .mapping ('!' :: _) _ => none
  | .mapping _ [(key, value)] =>
      if isNothing value then string? key else none
  | node => string? node

/- The entries under names, no name twice. -/
def record? : Node → Option (Record Node)
  | .mapping _ entries => do
      let fields ← entries.mapM fun (key, value) => do
        return (← string? key, value)
      let names := fields.map Prod.fst
      guard (names.eraseDups.length = names.length)
      return fields
  | node => if isNothing node then some [] else none

instance : Readable Node where
  string? := string?
  natural? node := (plainText? "int" node).bind natural?
  floating? node := (plainText? "float" node).bind floating?
  bool? node := (plainText? "bool" node).bind bool?
  word? := word?
  record? := record?

end Node

------------------------------------------------------------
-- Values
------------------------------------------------------------

namespace Value

/- A value without the tags that are kept with it. -/
def untagged : Value → Value
  | .tagged _ value => untagged value
  | value => value

def string? (value : Value) : Option String :=
  match value.untagged with
  | .string s => some s
  | _ => none

def natural? (value : Value) : Option Nat :=
  match value.untagged with
  | .integer (.ofNat n) => some n
  | _ => none

def floating? (value : Value) : Option Float :=
  match value.untagged with
  | .integer (.ofNat n) => some n.toUInt64.toFloat
  | .integer n => some (-n.natAbs.toUInt64.toFloat)
  | .floating x => some x
  | _ => none

def bool? (value : Value) : Option Bool :=
  match value.untagged with
  | .bool b => some b
  | _ => none

def word? : Value → Option String
  | .string s => some s
  | .tagged name .null => some name
  | .mapping [(key, .null)] => string? key
  | _ => none

def record? (value : Value) : Option (Record Value) :=
  match value.untagged with
  | .mapping entries =>
      entries.mapM fun (key, value) => do
        return (← string? key, value)
  | .null => some []
  | _ => none

instance : Readable Value where
  string? := string?
  natural? := natural?
  floating? := floating?
  bool? := bool?
  word? := word?
  record? := record?

end Value

------------------------------------------------------------
-- Words and fields
------------------------------------------------------------

variable {N α : Type}

/- A value of an enumeration by its word. -/
def worded? [Readable N] [Worded α] (form : N) : Option α := do
  Worded.read? (← Readable.word? form)

/- A field that may be left out for a value of its own. -/
def Record.withDefault
    (r : Record N)
    (name : String)
    (default : α)
    (read : N → Option α) : Option α :=
  match r.lookup name with
  | some form => read form
  | none => some default

end Yaml

end OrderWatch
