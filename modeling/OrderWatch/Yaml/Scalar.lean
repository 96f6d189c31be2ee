import OrderWatch.Text.Digits
import OrderWatch.Yaml.Cursor

/-
  The written forms of a YAML scalar.

  A scalar is plain, quoted once or twice, or a block of
  lines that are kept or folded.  Where a plain or a quoted
  one goes on in another line, a single line break counts as
  a blank, and of several ones the first is dropped.

  The readers start at the first character of a scalar.  Each
  one is given the column of the block around it, or -1; for
  a quotation it is the column that its lines stand right of.

  Key definitions:
    * `Yaml.Gap`
    * `Yaml.plain?`
    * `Yaml.quoted?`
    * `Yaml.block?`
-/

namespace OrderWatch

namespace Yaml

open Text

------------------------------------------------------------
-- Gaps
------------------------------------------------------------

/- The white space between two parts of a scalar. -/
structure Gap where
  /- The blanks in the line, the last one first. -/
  blanks : List Char := []
  /- Whether the second part stands in another line. -/
  crosses : Bool := false
  /- The first line break, unless it is escaped. -/
  first : Option Char := none
  /- The further line breaks, the last one first. -/
  more : List Char := []
  /- Whether one of the line breaks is firm. -/
  firm : Bool := false

namespace Gap

/- What the white space counts as. -/
def text (g : Gap) : List Char :=
  if g.crosses then
    match g.first with
    | some '\n' => if g.more.isEmpty then [' '] else g.more.reverse
    | some x => x :: g.more.reverse
    | none => g.more.reverse
  else
    g.blanks.reverse

/- One more line break. -/
def cross (g : Gap) (x : Char) (firm : Bool) : Gap :=
  let firm := g.firm || firm
  if g.crosses then
    { g with more := x :: g.more, firm }
  else
    { g with blanks := [], crosses := true, first := some x, firm }

/-
  The white space from here on.  No tab may indent a line up
  to the given column.
-/
def read? (column : Int) : Nat → Gap → Cursor → Option (Gap × Cursor)
  | 0, g, c => some (g, c)
  | n + 1, g, c =>
      if c.seesBlank then
        if g.crosses ∧ (c.column : Int) < column ∧ c.sees '\t' then
          none
        else
          let blanks :=
            if g.crosses then g.blanks
            else (c.peek.getD ' ') :: g.blanks
          read? column n { g with blanks } c.skip
      else if c.seesBreak then
        let firm := c.seesFirmEnd
        let (c, x) := c.readBreak
        read? column n (g.cross x firm) c
      else
        some (g, c)

end Gap

------------------------------------------------------------
-- Plain scalars
------------------------------------------------------------

/- The characters that stand for structure in a flow. -/
def isFlowMark (c : Char) : Bool :=
  c = ',' || c = '[' || c = ']' || c = '\x7b' || c = '\x7d'

/- Whether a plain scalar ends before a character. -/
def endsPlain (inFlow : Bool) (c : Cursor) : Bool :=
  (c.sees ':' && c.seesGap 1) || (inFlow && c.peek.any isFlowMark)

/- Whether a colon stands where it can have no meaning. -/
def isStrayColon (inFlow : Bool) (c : Cursor) : Bool :=
  inFlow && c.sees ':'
    && (c.peek 1).any fun x => isFlowMark x || x = '?'

/- The characters of a plain scalar up to the next gap. -/
def plainPart?
    (inFlow : Bool) :
    Nat → List Char → Cursor → Option (List Char × Cursor)
  | 0, _, _ => none
  | n + 1, text, c =>
      match c.peek with
      | some x =>
          if c.seesGap then
            some (text, c)
          else if isStrayColon inFlow c then
            none
          else if endsPlain inFlow c then
            some (text, c)
          else
            plainPart? inFlow n (x :: text) c.skip
      | none => some (text, c)

/- Whether a dash stands where it can have no meaning. -/
def isStrayDash (inFlow : Bool) (c : Cursor) : Bool :=
  inFlow && c.sees '-' && (c.peek 1).any isFlowMark

/- What has been read of a plain scalar, the last part first. -/
def plainParts?
    (inFlow : Bool)
    (column : Int) :
    Nat → List Char → Gap → Cursor →
      Option (List Char × Gap × Cursor)
  | 0, _, _, _ => none
  | n + 1, text, g, c =>
      if c.seesBoundary || c.sees '#' || c.seesEnd
          || endsPlain inFlow c then
        some (text, g, c)
      else if isStrayDash inFlow c then
        none
      else do
        let opened := g.text.reverse ++ text
        let (text, c) ← plainPart? inFlow n opened c
        if !c.seesGap then
          return (text, {}, c)
        else
          let (g, c) ← Gap.read? column n {} c
          if !inFlow && (c.column : Int) < column then
            return (text, g, c)
          else
            plainParts? inFlow column n text g c

/- A plain scalar, and the gap that follows it. -/
def plain?
    (inFlow : Bool)
    (indent : Int)
    (c : Cursor) : Option (List Char × Gap × Cursor) := do
  let fuel := c.left + 2
  let (text, g, c) ← plainParts? inFlow (indent + 1) fuel [] {} c
  return (text.reverse, g, c)

------------------------------------------------------------
-- Quoted scalars
------------------------------------------------------------

/- The character for an escape of a single letter. -/
def escape? : Char → Option Char
  | '0' => some '\x00'
  | 'a' => some '\x07'
  | 'b' => some '\x08'
  | 't' | '\t' => some '\t'
  | 'n' => some '\n'
  | 'v' => some '\x0b'
  | 'f' => some '\x0c'
  | 'r' => some '\r'
  | 'e' => some '\x1b'
  | ' ' => some ' '
  | '"' => some '"'
  | '/' => some '/'
  | '\\' => some '\\'
  | 'N' => some '\u0085'
  | '_' => some '\u00a0'
  | 'L' => some '\u2028'
  | 'P' => some '\u2029'
  | _ => none

/- The number of digits after an escape by code point. -/
def escapeWidth? : Char → Option Nat
  | 'x' => some 2
  | 'u' => some 4
  | 'U' => some 8
  | _ => none

/- The character of an escape, after its backslash. -/
def readEscape? (c : Cursor) : Option (Char × Cursor) := do
  let letter ← c.peek
  match escapeWidth? letter with
  | some width =>
      let digits := (c.skip.rest).take width
      let code ← readNatBase? 16 digits
      if digits.length = width ∧ code.isValidChar then
        return (Char.ofNat code, c.skip (width + 1))
      else
        none
  | none => return (← escape? letter, c.skip)

/-
  The part of a quoted scalar up to the next gap or its end.
  An escaped line break leaves a gap that is already crossed.
-/
def quotedPart?
    (quote : Char) :
    Nat → List Char → Cursor → Option (List Char × Gap × Cursor)
  | 0, _, _ => none
  | n + 1, text, c =>
      if c.seesGap then
        some (text, {}, c)
      else if quote = '\'' ∧ c.sees '\'' ∧ c.sees '\'' 1 then
        quotedPart? quote n ('\'' :: text) (c.skip 2)
      else if c.sees quote then
        some (text, {}, c)
      else if quote = '"' ∧ c.sees '\\' then
        if (c.peek 1).any isFirmBreak then
          let g : Gap := { crosses := true, firm := true }
          some (text, g, c.skip.readBreak.1)
        else
          match readEscape? c.skip with
          | some (x, c) => quotedPart? quote n (x :: text) c
          | none => none
      else
        quotedPart? quote n ((c.peek.getD ' ') :: text) c.skip

/-
  The parts of a quoted scalar up to its end, the last one
  first.  What follows a firm line break and is not the end
  has to stand right of a column; no line may start with a tab
  left of the margin, nor look like the border of a document.
-/
def quotedParts?
    (quote : Char)
    (column margin : Int) :
    Nat → List Char → Gap → Cursor → Option (List Char × Cursor)
  | 0, _, _, _ => none
  | n + 1, text, g, c =>
      if c.seesBoundary || c.peek.isNone then
        none
      else if g.firm && !c.sees quote
          && (c.column : Int) ≤ column then
        none
      else do
        let (text, g, c) ←
          quotedPart? quote n (g.text.reverse ++ text) c
        if !g.crosses && c.sees quote then
          return (text, c.skip)
        else
          let (g, c) ← Gap.read? margin n g c
          quotedParts? quote column margin n text g c

/-
  A scalar between quotes: doubled ones stand for themselves
  between single quotes, escapes between double ones.
-/
def quoted?
    (quote : Char)
    (column margin : Int)
    (c : Cursor) : Option (List Char × Cursor) := do
  let fuel := c.left + 2
  let (text, c) ←
    quotedParts? quote column margin fuel [] {} c.skip
  return (text.reverse, c)

------------------------------------------------------------
-- Blocks of lines
------------------------------------------------------------

/- What becomes of the line breaks at the end of a block. -/
inductive Chomping where
  | clip
  | strip
  | keep
deriving DecidableEq, Repr

/- The signs after the mark of a block, in either order. -/
def blockHeader? (c : Cursor) : Option (Chomping × Nat × Cursor) :=
  let chomping? (c : Cursor) : Option Chomping × Cursor :=
    if c.sees '+' then (some .keep, c.skip)
    else if c.sees '-' then (some .strip, c.skip)
    else (none, c)
  let width? (c : Cursor) : Option Nat × Cursor :=
    match c.peek.bind digit? with
    | some d => (some d, c.skip)
    | none => (none, c)
  let (first?, c) := chomping? c
  let (width?, c) := width? c
  let (second?, c) :=
    if first?.isNone then chomping? c else (none, c)
  if width? = some 0 then
    none
  else
    some ((first?.or second?).getD .clip, width?.getD 0, c)

/-
  The rest of a line on which nothing may follow but blanks
  and, after a blank, a comment.
-/
def endLine? (c : Cursor) : Option Cursor :=
  let next := c.skipBlanks
  if next.sees '#' ∧ c.seesBlank then
    some next.skipLine
  else if next.seesEnd then
    some next
  else
    none

/- The rest of a header, and the line break after it. -/
def endHeader? (c : Cursor) : Option Cursor := do
  let c ← endLine? c
  return if c.seesBreak then c.readBreak.1 else c

/-
  The empty lines from here on, the last line break first,
  and the deepest column met.  A line is empty up to the
  given column, or wherever it ends if that is zero.
-/
def emptyLines?
    (column : Nat) :
    Nat → Nat → List Char → Cursor →
      Option (List Char × Nat × Cursor)
  | 0, _, _, _ => none
  | n + 1, deepest, breaks, c =>
      let spaces := (c.rest.takeWhile (· = ' ')).length
      let room := if column = 0 then spaces else column - c.column
      let c := c.skip (min spaces room)
      let deepest := max deepest c.column
      if (column = 0 ∨ c.column < column) ∧ c.sees '\t' then
        none
      else if c.seesBreak then
        let (c, x) := c.readBreak
        emptyLines? column n deepest (x :: breaks) c
      else
        some (breaks, deepest, c)

/- A block as it is read, the last character first. -/
structure Block where
  text : List Char := []
  /- The line break after the last line. -/
  last : Option Char := none
  /- The line breaks of the empty lines after it. -/
  more : List Char := []
  /- Whether the last line starts with a blank. -/
  indented : Bool := false

namespace Block

/-
  The line breaks before the next line.  In a folded block
  one between lines that start without a blank is a blank.
-/
def joined (b : Block) (folded indented : Bool) : List Char :=
  if folded ∧ b.last = some '\n' ∧ !b.indented ∧ !indented then
    (if b.more.isEmpty then [' '] else b.more) ++ b.text
  else
    b.more ++ b.last.toList ++ b.text

/- The lines of a block, all of them at the given column. -/
def lines?
    (folded : Bool)
    (column : Nat) :
    Nat → Block → Cursor → Option (Block × Cursor)
  | 0, _, _ => none
  | n + 1, b, c =>
      if c.column = column ∧ c.peek.isSome then do
        let indented := c.seesBlank
        let (line, c) := c.span fun x => !isBreak x
        let text := line.reverse ++ b.joined folded indented
        let (c, last) :=
          if c.seesBreak then
            let (c, x) := c.readBreak
            (c, some x)
          else
            (c, none)
        let (more, _, c) ← emptyLines? column n 0 [] c
        lines? folded column n ⟨text, last, more, indented⟩ c
      else
        some (b, c)

/- The text of a block. -/
def chomped (b : Block) : Chomping → List Char
  | .strip => b.text.reverse
  | .clip => (b.last.toList ++ b.text).reverse
  | .keep => (b.more ++ b.last.toList ++ b.text).reverse

end Block

/-
  A block of lines, after its mark.  Its first line may not
  stand between the column of the block around it and its
  own, even if it is a comment.
-/
def block?
    (folded : Bool)
    (indent : Int)
    (c : Cursor) : Option (List Char × Cursor) := do
  let fuel := c.left + 2
  let (chomping, width, c) ← blockHeader? c
  let c ← endHeader? c
  let fixed := if width = 0 then 0 else indent.toNat + width
  let (more, deepest, c) ← emptyLines? fixed fuel 0 [] c
  let column :=
    if fixed = 0 then max deepest (indent + 1).toNat else fixed
  if c.peek.isSome ∧ c.column < column ∧ indent < c.column then
    none
  else
    let (b, c) ← Block.lines? folded (max column 1) fuel { more } c
    return (b.chomped chomping, c)

end Yaml

end OrderWatch
