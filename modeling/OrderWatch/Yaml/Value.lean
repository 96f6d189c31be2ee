import OrderWatch.Yaml.Node
import OrderWatch.Yaml.Schema

/-
  YAML values.

  A plain scalar is taken for what its text stands for, any
  other one is a string, unless a tag says otherwise.  No key
  stands in a mapping twice.  A mapping takes over the entries
  of others under the key `<<`.

  Key definitions:
    * `Yaml.Value`, `Yaml.Value.same`
    * `Yaml.Value.ofNode?`
    * `Yaml.Document.value?`
-/

namespace OrderWatch

namespace Yaml

inductive Value where
  | null
  | bool (b : Bool)
  | integer (n : Int)
  | floating (x : Float)
  | string (s : String)
  | sequence (items : List Value)
  | mapping (entries : List (Value × Value))
  | tagged (name : String) (value : Value)
deriving Repr, Inhabited

abbrev Entries :=
  List (Value × Value)

namespace Value

------------------------------------------------------------
-- Sameness
------------------------------------------------------------

mutual

/- Whether two values are the same key. -/
def same : Value → Value → Bool
  | .null, .null => true
  | .bool a, .bool b => a == b
  | .integer m, .integer n => m == n
  | .floating x, .floating y =>
      x == y || (x.isNaN && y.isNaN)
  | .string s, .string t => s == t
  | .sequence xs, .sequence ys => sameItems xs ys
  | .mapping xs, .mapping ys => sameEntries xs ys
  | .tagged s x, .tagged t y => s == t && same x y
  | _, _ => false
termination_by structural x => x

def sameItems : List Value → List Value → Bool
  | [], [] => true
  | x :: xs, y :: ys => same x y && sameItems xs ys
  | _, _ => false
termination_by structural xs => xs

def sameEntry : Value × Value → Value × Value → Bool
  | (k, x), (l, y) => same k l && same x y
termination_by structural e => e

def sameEntries : Entries → Entries → Bool
  | [], [] => true
  | x :: xs, y :: ys => sameEntry x y && sameEntries xs ys
  | _, _ => false
termination_by structural xs => xs

end

/- Whether there is an entry under a key. -/
def hasKey (key : Value) (entries : Entries) : Bool :=
  entries.any fun (other, _) => same key other

/- Whether no key stands in a mapping twice. -/
def areDistinct : Entries → Bool
  | [] => true
  | (key, _) :: rest => !hasKey key rest && areDistinct rest

------------------------------------------------------------
-- Scalars
------------------------------------------------------------

/- What a plain scalar without a tag stands for. -/
def ofPlain (text : List Char) : Value :=
  let unsigned :=
    if text.head? = some '-' ∨ text.head? = some '+' then
      text.tail
    else
      text
  let number? : Option Value :=
    ((integer? text).map integer).or
      (if hasLeadingZero unsigned then none
      else (floating? text).map floating)
  if isNull text then
    .null
  else
    (((bool? text).map bool).or number?).getD
      (.string (String.ofList text))

/- What a scalar without a tag stands for. -/
def ofText (style : Style) (text : List Char) : Value :=
  if style = .plain then ofPlain text
  else .string (String.ofList text)

/-
  What a scalar stands for.  The tags of the basic types say
  how a text is read in any style; a tag of one's own is kept
  with the value, and others make it a string.
-/
def ofScalar?
    (tag : List Char)
    (style : Style)
    (text : List Char) : Option Value :=
  match tag with
  | [] => some (ofText style text)
  | '!' :: name =>
      some (.tagged (String.ofList name) (ofText style text))
  | _ =>
      match String.ofList tag with
      | "tag:yaml.org,2002:null" =>
          if !text.isEmpty && isNull text then some .null else none
      | "tag:yaml.org,2002:bool" => (bool? text).map bool
      | "tag:yaml.org,2002:int" => (integer? text).map integer
      | "tag:yaml.org,2002:float" => (floating? text).map floating
      | _ => some (.string (String.ofList text))

/- Keep a tag of one's own with a collection. -/
def withTag (tag : List Char) (value : Value) : Value :=
  match tag with
  | '!' :: name => .tagged (String.ofList name) value
  | _ => value

------------------------------------------------------------
-- Taking over entries
------------------------------------------------------------

/- The key under which entries are taken over. -/
def mergeKey : Value :=
  .string "<<"

/- Add the entries whose keys are not there yet. -/
def extend (own more : Entries) : Entries :=
  own ++ more.filter fun (key, _) => !hasKey key own

def entries? : Value → Option Entries
  | .mapping entries => some entries
  | _ => none

/- The entries of a mapping or of several, the first ones first. -/
def given? : Value → Option Entries
  | .sequence items => do
      return (← items.mapM entries?).foldl extend []
  | value => entries? value

/- The entries of a mapping with those that it takes over. -/
def merged? (entries : Entries) : Option Entries :=
  match entries.find? fun (key, _) => same key mergeKey with
  | some (_, value) => do
      let own := entries.filter fun (key, _) => !same key mergeKey
      return extend own (← given? value)
  | none => some entries

------------------------------------------------------------
-- Nodes
------------------------------------------------------------

/- The value of a node, at most so many collections deep. -/
def ofNode? : Nat → Node → Option Value
  | _, .scalar tag style text => ofScalar? tag style text
  | n + 1, .sequence tag items => do
      return withTag tag (.sequence (← items.mapM (ofNode? n)))
  | n + 1, .mapping tag entries => do
      let entries ← entries.mapM fun (key, value) => do
        return (← ofNode? n key, ← ofNode? n value)
      guard (areDistinct entries)
      return withTag tag (.mapping (← merged? entries))
  | _, _ => none

end Value

/- The most collections that may stand in one another. -/
def maxDepth : Nat :=
  128

/-
  The value of a document, unless replacing its aliases makes
  it far larger than it is written.
-/
def Document.value? (d : Document) : Option Value :=
  if 100 * d.events < d.aliases then
    none
  else
    Value.ofNode? maxDepth d.root

end Yaml

end OrderWatch
