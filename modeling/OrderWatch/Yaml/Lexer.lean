import OrderWatch.Yaml.Scalar
import OrderWatch.Yaml.Token

/-
  From a YAML text to its tokens.

  A mapping key is known as one only when its colon is met:
  until then the place where a key may have begun is kept,
  and the tokens for it are put in there afterwards.  Such a
  key stands in one line and takes at most 1024 bytes.

  Key definitions:
    * `Yaml.KeyStart`
    * `Yaml.Lexer`
    * `Yaml.tokens?`
-/

namespace OrderWatch

namespace Yaml

open Text

/- A place where a key may have begun. -/
structure KeyStart where
  /- The number of tokens before it. -/
  place : Nat
  line : Nat
  column : Nat
  index : Nat
  /- Whether nothing but a key may stand there. -/
  required : Bool
  /- Whether nothing but a scalar may stand there. -/
  glued : Bool
deriving Repr

structure Lexer where
  cursor : Cursor
  tokens : Array Token
  /- The column of the innermost block, or -1. -/
  indent : Int
  /- The columns of the blocks around it. -/
  outer : List Int
  /-
    Whether what comes has to stand right of that column: the
    value of a key, or brackets, up to a plain scalar.
  -/
  inset : Bool
  /- The place of a key in the text outside all brackets. -/
  keyStart : Option KeyStart
  /- The places of keys inside brackets, the inmost first. -/
  flows : List (Option KeyStart)
  /- Whether a key may begin here. -/
  keyAllowed : Bool
  /- The column at which the last token began. -/
  began : Nat
  /- Whether no firm line break follows the last scalar. -/
  glued : Bool

namespace Lexer

def ofText (cs : List Char) : Lexer :=
  { cursor := .ofText cs, tokens := #[], indent := -1
    outer := [], inset := false, keyStart := none, flows := []
    keyAllowed := true, began := 0, glued := false }

/- Whether the lexer is inside brackets. -/
def inFlow (l : Lexer) : Bool :=
  !l.flows.isEmpty

def emit (l : Lexer) (t : Token) : Lexer :=
  { l with tokens := l.tokens.push t }

def moveTo (l : Lexer) (c : Cursor) : Lexer :=
  { l with cursor := c }

/- The column from which on brackets and quotations go on. -/
def margin (l : Lexer) : Int :=
  if l.inset then l.indent + 1 else l.indent

/- Ask for what comes to stand right of the block's column. -/
def setIn (l : Lexer) : Lexer :=
  { l with inset := l.inset || (!l.inFlow && !l.outer.isEmpty) }

------------------------------------------------------------
-- Blocks
------------------------------------------------------------

/- End the blocks that stand farther right than a column. -/
def closeBlocks
    (column : Int) (indent : Int) :
    List Int → Array Token → Int × List Int × Array Token
  | outer :: rest, tokens =>
      if column < indent then
        closeBlocks column outer rest (tokens.push .blockEnd)
      else
        (indent, outer :: rest, tokens)
  | [], tokens => (indent, [], tokens)

def unindent (l : Lexer) (column : Int) : Lexer :=
  if l.inFlow then
    l
  else
    let (indent, outer, tokens) :=
      closeBlocks column l.indent l.outer l.tokens
    { l with
      inset := l.inset && l.indent < column
      indent, outer, tokens }

/- Start a block at a column, unless there is one already. -/
def openBlock
    (l : Lexer)
    (column place : Nat)
    (start : Token) : Lexer :=
  if l.inFlow ∨ (column : Int) ≤ l.indent then
    l
  else
    { l with
      inset := false
      indent := column
      outer := l.indent :: l.outer
      tokens := l.tokens.insertIdxIfInBounds place start }

------------------------------------------------------------
-- Keys
------------------------------------------------------------

/- The place of a key in the innermost brackets. -/
def current (l : Lexer) : Option KeyStart :=
  match l.flows with
  | k :: _ => k
  | [] => l.keyStart

def setCurrent (l : Lexer) (k : Option KeyStart) : Lexer :=
  match l.flows with
  | _ :: rest => { l with flows := k :: rest }
  | [] => { l with keyStart := k }

/- Give up a place of a key; a required one has to be used. -/
def dropKey? (l : Lexer) : Option Lexer :=
  if l.current.any KeyStart.required then
    none
  else
    some { l.setCurrent none with glued := false }

/- Keep this place as that of a key, if one may begin here. -/
def keepKey? (l : Lexer) : Option Lexer :=
  if l.keyAllowed then do
    let glued := l.glued && !l.inFlow
    let l ← l.dropKey?
    let c := l.cursor
    return l.setCurrent (some {
      place := l.tokens.size
      line := c.line
      column := c.column
      index := c.index
      required := !l.inFlow && l.indent == c.column
      glued })
  else
    some l

/- Whether a place is too far back for its key to end here. -/
def isPast (c : Cursor) (k : KeyStart) : Bool :=
  k.line < c.line || k.index + 1024 < c.index

/- Give up the places that are too far back. -/
def dropPast? (l : Lexer) : Option Lexer :=
  let past (k : Option KeyStart) := k.any (isPast l.cursor)
  let places := l.keyStart :: l.flows
  if places.any fun k => past k && k.any KeyStart.required then
    none
  else
    let keep (k : Option KeyStart) := if past k then none else k
    some { l with
      keyStart := keep l.keyStart
      flows := l.flows.map keep }

------------------------------------------------------------
-- White space
------------------------------------------------------------

/-
  Move to the next token.  A tab may not stand where a block
  may begin, nor left of the margin in front of what goes on
  with brackets in a fresh line.
-/
def skipGaps? (fresh : Bool) : Nat → Lexer → Option Lexer
  | 0, l => some l
  | n + 1, l =>
      let tabs := l.inFlow || !l.keyAllowed
      let spaced := (l.cursor.span (· = ' ')).2
      let c := (spaced.span fun x => x = ' ' || (tabs && x = '\t')).2
      let tabbed := spaced.sees '\t' && l.inFlow && fresh
        && (spaced.column : Int) < l.margin
      let c := if c.sees '#' then c.skipLine else c
      if c.seesBreak then
        let keyAllowed := l.keyAllowed || !l.inFlow
        skipGaps? true n
          { l with cursor := c.readBreak.1, keyAllowed }
      else if tabbed then
        none
      else
        some (l.moveTo c)

------------------------------------------------------------
-- Structure
------------------------------------------------------------

/- A token of some characters that may not be part of a key. -/
def mark?
    (l : Lexer)
    (keyAllowed : Bool)
    (width : Nat)
    (t : Token) : Option Lexer := do
  let l ← l.dropKey?
  return ({ l with
    keyAllowed, cursor := l.cursor.skip width }.emit t)

/- The border of a document, which ends all blocks. -/
def boundary? (l : Lexer) (t : Token) : Option Lexer :=
  (l.unindent (-1)).mark? false 3 t

/- The end of a document; the line may hold nothing else. -/
def documentEnd? (l : Lexer) : Option Lexer := do
  let l ← l.boundary? .documentEnd
  return l.moveTo (← endLine? l.cursor)

/- Whether a comment follows a mark without a blank. -/
def touchesComment (c : Cursor) : Bool :=
  c.sees '#' 1

/- How many brackets may be open at one place. -/
def maxFlows : Nat :=
  255

/- Open brackets, which may be a key as a whole. -/
def openFlow? (l : Lexer) (t : Token) : Option Lexer := do
  guard (l.flows.length < maxFlows)
  let l := (← l.keepKey?).setIn
  return ({ l with
    flows := none :: l.flows
    keyAllowed := true
    cursor := l.cursor.skip }.emit t)

/- Close brackets; a line that ends after them ends firmly. -/
def closeFlow? (l : Lexer) (t : Token) : Option Lexer := do
  let l ← l.dropKey?
  let c := l.cursor.skip
  let next := c.skipBlanks
  guard (!next.seesBreak || next.seesFirmEnd)
  return ({ l with
    flows := l.flows.tail
    keyAllowed := false
    cursor := c }.emit t)

/- Start a block for what stands here, if it may. -/
def openHere? (l : Lexer) (start : Token) : Option Lexer :=
  if l.inFlow then
    some l
  else if l.keyAllowed then
    some (l.openBlock l.cursor.column l.tokens.size start)
  else
    none

/-
  Whether a dash here would be read as a part of what the
  properties in front of it belong to.
-/
def followsProperty (l : Lexer) : Bool :=
  l.cursor.column == 0 && 0 ≤ l.indent && l.began == 0
    && l.tokens.back?.any Token.isProperty

def entry? (l : Lexer) : Option Lexer := do
  guard !l.followsProperty
  let l ← l.openHere? .blockSequence
  let next := l.cursor.skip.skipBlanks
  let l :=
    if next.seesEnd || next.sees '#' || next.peek.any isFlowMark
    then l.setIn
    else l
  l.mark? true 1 .blockEntry

/- Whether only blank lines and spaces stand before a tab. -/
def meetsTab : Nat → Cursor → Bool
  | 0, _ => false
  | n + 1, c =>
      let c := (c.span (· = ' ')).2
      let c := if c.sees '#' then c.skipLine else c
      if c.seesBreak && c.seesFirmEnd then
        meetsTab n c.readBreak.1
      else
        c.sees '\t'

/- A question mark, in front of a key that no tab indents. -/
def key? (l : Lexer) : Option Lexer := do
  let c := l.cursor.skip
  guard !(c.seesGap && meetsTab (c.left + 1) c)
  let l ← l.openHere? .blockMapping
  l.mark? (!l.inFlow) 1 .key

/-
  Whether a colon inside brackets is parted well enough from
  what it stands between.  One that a blank follows always is,
  and so is one after a quotation or a closing bracket.
-/
def partsFlow (l : Lexer) : Bool :=
  let c := l.cursor
  let isClosed := l.tokens.back?.any Token.isClosed
  let isAlias := l.tokens.back?.any Token.isAlias
  c.seesGap 1 || isClosed
    || (c.peek 1).any fun x =>
      x = ',' || x = ']' || x = '\x7d'
        || (!isFlowMark x && !isAlias)

/- A colon: it ends a key whose place is kept, or starts one. -/
def value? (l : Lexer) : Option Lexer := do
  guard (!l.inFlow || l.partsFlow)
  match l.current with
  | some k =>
      if k.glued then
        none
      else
        let l :=
          { l with
            tokens := l.tokens.insertIdxIfInBounds k.place .key }
        let l :=
          (l.setCurrent none).openBlock k.column k.place
            .blockMapping
        some (({ l with
          keyAllowed := false
          cursor := l.cursor.skip }.emit .value).setIn)
  | none => do
      let l ← l.openHere? .blockMapping
      return ({ l with
        keyAllowed := !l.inFlow
        cursor := l.cursor.skip }.emit .value).setIn

------------------------------------------------------------
-- Names
------------------------------------------------------------

/- Whether a name may end here. -/
def endsName (c : Cursor) : Bool :=
  c.seesGap || c.peek.any fun x =>
    x ∈ ['?', ':', ',', ']', '\x7d', '%', '@', '`']

/- Whether a name is parted from what comes here. -/
def isParted (c : Cursor) : Bool :=
  c.seesBlank || c.seesFirmEnd || c.peek.any isFlowMark

def name? (c : Cursor) : Option (List Char × Cursor) :=
  let (name, c) := c.span isWord
  if name.isEmpty || !endsName c then none else some (name, c)

/- An alias, after which a blank or a mark has to stand. -/
def alias? (l : Lexer) : Option Lexer := do
  let l ← l.keepKey?
  let (name, c) ← name? l.cursor.skip
  guard (isParted c)
  return ({ l with
    keyAllowed := false, cursor := c }.emit (.alias name))

/-
  An anchor.  What stands at its name without a blank makes
  it another name, but is read once more.
-/
def anchor? (l : Lexer) : Option Lexer := do
  let l ← l.keepKey?
  let (name, c) ← name? l.cursor.skip
  let more := (c.span fun x =>
    !isBlank x && !isFirmBreak x && !isFlowMark x).1
  return ({ l with
    keyAllowed := false
    cursor := c }.emit (.anchor (name ++ more)))

/- A tag, which a blank or a comma has to follow. -/
def tag? (l : Lexer) : Option Lexer := do
  let l ← l.keepKey?
  let (tag, c) ← Tag.read? l.cursor
  guard (c.seesBlank || c.seesFirmEnd || (l.inFlow && c.sees ','))
  return ({ l with
    keyAllowed := false, cursor := c }.emit (.tag tag))

------------------------------------------------------------
-- Directives
------------------------------------------------------------

/- A number of a version, of nine digits at most. -/
def versionPart? (c : Cursor) : Option (Nat × Cursor) := do
  let (digits, c) := c.span isDigit
  guard (digits.length ≤ 9)
  return (← readNat? digits, c)

/- A version: one of 1.1 and 1.2. -/
def version? (c : Cursor) : Option Cursor := do
  let (major, c) ← versionPart? c
  guard (c.sees '.')
  let (minor, c) ← versionPart? c.skip
  guard (major = 1 ∧ (minor = 1 ∨ minor = 2))
  return c

/- The token of a directive, whose name decides what follows. -/
def declared? (name : String) (c : Cursor) : Option (Token × Cursor) :=
  match name with
  | "YAML" => do
      return (.version, ← version? c)
  | "TAG" => do
      let ((name, stem), c) ← handle? c
      return (.handle name stem, c)
  | _ => none

def directive? (l : Lexer) : Option Lexer := do
  let l ← (l.unindent (-1)).dropKey?
  let (name, c) := l.cursor.skip.span isWord
  let (token, c) ← declared? (String.ofList name) c.skipBlanks
  let c ← endHeader? c
  return ({ l with keyAllowed := true, cursor := c }.emit token)

------------------------------------------------------------
-- Scalars
------------------------------------------------------------

def plainScalar? (l : Lexer) : Option Lexer := do
  let l ← l.keepKey?
  let (text, gap, c) ← plain? l.inFlow l.indent l.cursor
  return ({ l with
    inset := false
    keyAllowed := gap.crosses
    glued := gap.crosses && !gap.firm
    cursor := c }.emit (.scalar .plain text))

/- Whether the line may go on like this after a quotation. -/
def mayFollowQuoted (l : Lexer) (c : Cursor) : Bool :=
  let next := c.skipBlanks
  next.seesFirmEnd
    || (next.sees '#' && c.seesBlank)
    || next.sees ':'
    || (l.inFlow && next.peek.any isFlowMark)

def quotedScalar? (l : Lexer) (quote : Char) : Option Lexer := do
  let l ← l.keepKey?
  let column := if l.inFlow then -1 else l.margin
  let (text, c) ← quoted? quote column l.margin l.cursor
  guard (l.mayFollowQuoted c)
  return ({ l with
    keyAllowed := false
    cursor := c }.emit (.scalar .quoted text))

def blockScalar? (l : Lexer) (folded : Bool) : Option Lexer := do
  let l ← l.dropKey?
  let (text, c) ← block? folded l.indent l.cursor.skip
  let style := if folded then Style.folded else .literal
  return ({ l with
    keyAllowed := true
    cursor := c }.emit (.scalar style text))

------------------------------------------------------------
-- All tokens
------------------------------------------------------------

/- The characters that no plain scalar starts with. -/
def isIndicator (c : Char) : Bool :=
  "-?:,[]#&*!|>'\"%@`".contains c || c = '\x7b' || c = '\x7d'

/- Whether a plain scalar may start here. -/
def startsPlain (l : Lexer) : Bool :=
  let c := l.cursor
  (c.peek.any fun x => !isIndicator x && !isBlank x)
    || (c.sees '-' && !c.seesBlank 1)
    || (!l.inFlow && (c.sees '?' || c.sees ':') && !c.seesGap 1)

/- The next token, with the cursor at its first character. -/
def token? (l : Lexer) (x : Char) : Option Lexer :=
  let c := l.cursor
  if c.column = 0 ∧ x = '%' then l.directive?
  else if c.seesMark '-' then l.boundary? .documentStart
  else if c.seesMark '.' then l.documentEnd?
  else if isFlowMark x && touchesComment c then none
  else if x = '[' then l.openFlow? .flowSequence
  else if x = '\x7b' then l.openFlow? .flowMapping
  else if x = ']' then l.closeFlow? .flowSequenceEnd
  else if x = '\x7d' then l.closeFlow? .flowMappingEnd
  else if x = ',' then l.mark? true 1 .flowEntry
  else if x = '-' ∧ c.seesGap 1 then l.entry?
  else if x = '?' ∧ (l.inFlow ∨ c.seesGap 1) then l.key?
  else if x = ':' ∧ (l.inFlow ∨ c.seesGap 1) then l.value?
  else if x = '*' then l.alias?
  else if x = '&' then l.anchor?
  else if x = '!' then l.tag?
  else if x = '|' ∧ !l.inFlow then l.blockScalar? false
  else if x = '>' ∧ !l.inFlow then l.blockScalar? true
  else if x = '\'' ∨ x = '"' then l.quotedScalar? x
  else if l.startsPlain then l.plainScalar?
  else none

/- Move to the next token or to the end of the text. -/
def next? (l : Lexer) : Option Lexer := do
  let l ← skipGaps? false (l.cursor.left + 1) l
  let l ← l.dropPast?
  return l.unindent l.cursor.column

/- End all blocks at the end of the text. -/
def finish? (l : Lexer) : Option (Array Token) := do
  let l ← (l.unindent (-1)).dropKey?
  return l.tokens

/- All tokens of the text; every step takes a character. -/
def run : Nat → Lexer → Array Token
  | 0, l => l.tokens.push .unreadable
  | n + 1, l =>
      let broken := l.tokens.push .unreadable
      match l.next? with
      | none => broken
      | some here =>
          match here.cursor.peek with
          | none => here.finish?.getD broken
          | some x =>
              match here.token? x with
              | none => broken
              | some l =>
                  run n { l with began := here.cursor.column }

end Lexer

/- The tokens of a text that holds no forbidden character. -/
def tokens? (cs : List Char) : Option (List Token) :=
  if cs.all isPrintable then
    some ((Lexer.ofText cs).run (cs.length + 2)).toList
  else
    none

end Yaml

end OrderWatch
