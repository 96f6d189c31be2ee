import OrderWatch.Yaml.Lexer

/-
  The document of a YAML text.

  A text holds no document or one.  A node that an alias
  names is put in the alias's place; it has to stand before
  the alias, or around it.

  Key definitions:
    * `Yaml.Node`, `Yaml.Document`
    * `Yaml.Source`
    * `Yaml.parse?`
-/

namespace OrderWatch

namespace Yaml

/- A node; it has no tag if the tag is empty. -/
inductive Node where
  | scalar (tag : List Char) (style : Style) (text : List Char)
  | sequence (tag : List Char) (items : List Node)
  | mapping (tag : List Char) (entries : List (Node × Node))
  /- An alias inside of the node that it names. -/
  | cyclic
deriving Repr

namespace Node

/- The scalar that stands for nothing. -/
def empty : Node :=
  .scalar [] .plain []

instance : Inhabited Node :=
  ⟨empty⟩

end Node

structure Document where
  root : Node
  /- The number of places where a node begins or ends. -/
  events : Nat
  /- The number of aliases after each one is replaced. -/
  aliases : Nat
deriving Repr, Inhabited

/- What an alias stands for. -/
structure Anchored where
  node : Node
  /- The number of aliases in it, after each is replaced. -/
  aliases : Nat

/- The tokens to come, and what has been met before. -/
structure Source where
  tokens : List Token
  handles : Handles := []
  anchors : List (List Char × Anchored) := []
  /- The number of collections around this place. -/
  depth : Nat := 0
  events : Nat := 0
  aliases : Nat := 0

/- A reader of a part of the text. -/
abbrev Build :=
  StateT Source Option

namespace Build

/- The next token, which is left in its place. -/
def peek : Build (Option Token) := do
  return (← get).tokens.head?

/- Pass over the next token. -/
def skip : Build Unit :=
  modify fun s => { s with tokens := s.tokens.tail }

/- Whether the next token is one of some. -/
def sees (ts : List Token) : Build Bool := do
  return (← peek).any fun t => ts.contains t

/- Pass over the next token, which has to be the given one. -/
def expect (t : Token) : Build Unit := do
  if ← sees [t] then skip else failure

/- Count places where a node begins or ends. -/
def count (n : Nat) : Build Unit :=
  modify fun s => { s with events := s.events + n }

/- The most collections that may stand in one another. -/
def maxNesting : Nat :=
  2000

/- Read the parts of a collection. -/
def nested {α : Type} (parts : Build α) : Build α := do
  count 2
  modify fun s => { s with depth := s.depth + 1 }
  guard ((← get).depth ≤ maxNesting)
  let a ← parts
  modify fun s => { s with depth := s.depth - 1 }
  return a

def emptyNode : Build Node := do
  count 1
  return .empty

/- The node that a name was given to last. -/
def named (name : List Char) : Build Node := do
  match (← get).anchors.lookup name with
  | some anchored =>
      count 1
      modify fun s =>
        { s with aliases := s.aliases + 1 + anchored.aliases }
      return anchored.node
  | none => failure

/- Give a name to a node, if there is one. -/
def name
    (anchor? : Option (List Char))
    (node : Node)
    (aliases : Nat) : Build Unit :=
  match anchor? with
  | some anchor =>
      modify fun s =>
        { s with anchors := (anchor, ⟨node, aliases⟩) :: s.anchors }
  | none => return ()

------------------------------------------------------------
-- Properties
------------------------------------------------------------

/- What stands before a node: a name and a tag. -/
structure Properties where
  anchor : Option (List Char)
  tag : Option (List Char)

def anchor? : Build (Option (List Char)) := do
  match ← peek with
  | some (.anchor name) => skip; return some name
  | _ => return none

def tag? : Build (Option (List Char)) := do
  match ← peek with
  | some (.tag tag) =>
      skip
      return some (← tag.resolve? (← get).handles)
  | _ => return none

/- The properties of a node, in either order. -/
def properties : Build Properties := do
  match ← anchor? with
  | some anchor => return ⟨some anchor, ← tag?⟩
  | none =>
      let tag ← tag?
      return ⟨← anchor?, tag⟩

------------------------------------------------------------
-- Nodes
------------------------------------------------------------

/- Where a node stands. -/
inductive Place where
  | flow
  | block
  /- After a key, where a sequence needs no indentation. -/
  | afterKey
deriving DecidableEq

mutual

/- A node, unless one of the given tokens shows it is empty. -/
def nodeBefore
    (ends : List Token)
    (place : Place) : Nat → Build Node
  | 0 => failure
  | n + 1 => do
      if ← sees ends then emptyNode else node place n

def node (place : Place) : Nat → Build Node
  | 0 => failure
  | n + 1 => do
      match ← peek with
      | some (.alias name) => skip; named name
      | _ =>
          let p ← properties
          name p.anchor .cyclic 0
          let before := (← get).aliases
          let node ← content place p n
          name p.anchor node ((← get).aliases - before)
          return node

/-
  A node after its properties.  A tag of a single mark says
  nothing of a scalar that is there.
-/
def content
    (place : Place)
    (p : Properties) : Nat → Build Node
  | 0 => failure
  | n + 1 => do
      let tag := p.tag.getD []
      match ← peek, place with
      | some (.scalar style text), _ =>
          skip
          count 1
          let tag := if tag = ['!'] then [] else tag
          return .scalar tag style text
      | some .flowSequence, _ =>
          skip
          return .sequence tag (← nested (flowItems true n))
      | some .flowMapping, _ =>
          skip
          return .mapping tag (← nested (flowEntries true n))
      | some .blockEntry, .afterKey =>
          return .sequence tag (← nested (looseItems n))
      | some .blockSequence, .block
      | some .blockSequence, .afterKey =>
          skip
          return .sequence tag (← nested (blockItems n))
      | some .blockMapping, .block
      | some .blockMapping, .afterKey =>
          skip
          return .mapping tag (← nested (blockEntries n))
      | _, _ =>
          if p.anchor.isSome || p.tag.isSome then
            count 1
            return .scalar tag .plain []
          else
            failure

/- The items of a sequence in a block of its own. -/
def blockItems : Nat → Build (List Node)
  | 0 => failure
  | n + 1 => do
      if ← sees [.blockEnd] then
        skip
        return []
      else
        expect .blockEntry
        let item ← nodeBefore [.blockEntry, .blockEnd] .block n
        return item :: (← blockItems n)

/- The items of a sequence without a block of its own. -/
def looseItems : Nat → Build (List Node)
  | 0 => failure
  | n + 1 => do
      if ← sees [.blockEntry] then
        skip
        let item ←
          nodeBefore [.blockEntry, .key, .value, .blockEnd]
            .block n
        return item :: (← looseItems n)
      else
        return []

/- The entries of a mapping in a block. -/
def blockEntries : Nat → Build (List (Node × Node))
  | 0 => failure
  | n + 1 => do
      if ← sees [.blockEnd] then
        skip
        return []
      else
        expect .key
        let ends := [Token.key, .value, .blockEnd]
        let key ← nodeBefore ends .afterKey n
        let value ←
          if ← sees [.value] then
            skip
            nodeBefore ends .afterKey n
          else
            emptyNode
        return (key, value) :: (← blockEntries n)

/- The items of a sequence in brackets. -/
def flowItems (isFirst : Bool) : Nat → Build (List Node)
  | 0 => failure
  | n + 1 => do
      if ← sees [.flowSequenceEnd] then
        skip
        return []
      else
        unless isFirst do expect .flowEntry
        if ← sees [.flowSequenceEnd] then
          skip
          return []
        else if ← sees [.key] then
          skip
          let entry ← nested (flowPair n)
          return .mapping [] [entry] :: (← flowItems false n)
        else
          let item ← node .flow n
          return item :: (← flowItems false n)

/-
  The entry of a mapping that is an item of a sequence as a
  whole.  A mark in the place of its key is passed over.
-/
def flowPair : Nat → Build (Node × Node)
  | 0 => failure
  | n + 1 => do
      let key ←
        if ← sees [.value, .flowEntry, .flowSequenceEnd] then
          skip
          emptyNode
        else
          node .flow n
      return (key, ← flowValue .flowSequenceEnd n)

/- The entries of a mapping in braces. -/
def flowEntries
    (isFirst : Bool) : Nat → Build (List (Node × Node))
  | 0 => failure
  | n + 1 => do
      if ← sees [.flowMappingEnd] then
        skip
        return []
      else
        unless isFirst do expect .flowEntry
        if ← sees [.flowMappingEnd] then
          skip
          return []
        else if ← sees [.key] then
          skip
          let ends := [Token.value, .flowEntry, .flowMappingEnd]
          let key ← nodeBefore ends .flow n
          let value ← flowValue .flowMappingEnd n
          return (key, value) :: (← flowEntries false n)
        else
          let key ← node .flow n
          let value ← emptyNode
          return (key, value) :: (← flowEntries false n)

/- The value of a key inside brackets. -/
def flowValue (close : Token) : Nat → Build Node
  | 0 => failure
  | n + 1 => do
      if ← sees [.value] then
        skip
        nodeBefore [.flowEntry, close] .flow n
      else
        emptyNode

end

------------------------------------------------------------
-- Documents
------------------------------------------------------------

/- The handles of some directives, none of them given twice. -/
def handles? (directives : List Token) : Option Handles := do
  let handles := directives.filterMap fun t =>
    match t with
    | .handle name stem => some (name, stem)
    | _ => none
  let names := handles.map Prod.fst
  guard (directives.count .version ≤ 1)
  guard (names.eraseDups.length = names.length)
  return handles

/- Take in the directives, if there are any. -/
def directives : Build Bool := do
  let found := (← get).tokens.takeWhile Token.isDirective
  let handles ← handles? found
  modify fun s =>
    { s with tokens := s.tokens.drop found.length, handles }
  return !found.isEmpty

/-
  Whether no other document follows the only one.  After the
  mark of its end nothing but a start is looked at.
-/
def isLast : List Token → Bool
  | [] => true
  | .documentEnd :: rest =>
      let after := rest.dropWhile fun t =>
        t == .documentEnd || t.isDirective
      after.head? != some .documentStart
  | _ => false

/- The only document of a text, if it has one. -/
def document (fuel : Nat) : Build (Option Document) := do
  if (← peek).isNone then
    return none
  else
    let directed ← directives
    let marked ← sees [.documentStart]
    if directed || marked then expect .documentStart
    let isEmpty := (← peek).all (· == .documentEnd)
    let root ←
      if marked && isEmpty then emptyNode else node .block fuel
    let s ← get
    guard (isLast s.tokens)
    return some ⟨root, s.events, s.aliases⟩

end Build

/- Whether there are too many aliases for the anchors. -/
def isOverladen (ts : List Token) : Bool :=
  let aliases := ts.countP Token.isAlias
  100 ≤ aliases && 10 * ts.countP Token.isAnchor < aliases

/-
  The document of a text that holds one at most.  Every token
  is passed in a few steps.
-/
def parse? (cs : List Char) : Option (Option Document) := do
  let tokens ← tokens? cs
  guard !isOverladen (tokens.takeWhile (· != .documentEnd))
  let (document?, _) ←
    (Build.document (4 * tokens.length + 4)).run { tokens }
  return document?

end Yaml

end OrderWatch
