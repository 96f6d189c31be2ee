import OrderWatch.Text.Digits
import OrderWatch.Yaml.Cursor

/-
  The tags of a YAML text.

  A tag is written as a handle and a suffix; the handle
  stands for the stem of the full tag.  Two handles have a
  stem to begin with, and directives declare others.  Escapes
  of two hexadecimal digits give the bytes of characters.

  Key definitions:
    * `Yaml.Tag`, `Yaml.Tag.read?`
    * `Yaml.Handles`, `Yaml.handle?`
    * `Yaml.Tag.resolve?`
-/

namespace OrderWatch

namespace Yaml

open Text

/- A tag as it is written. -/
structure Tag where
  handle : List Char
  suffix : List Char
deriving DecidableEq, Repr, Inhabited

------------------------------------------------------------
-- Characters
------------------------------------------------------------

/- The characters of a suffix. -/
def isTagChar (c : Char) : Bool :=
  isWord c || ";/?:@&=+$.%~*'()".contains c

/- The characters of a stem and of a full tag. -/
def isStemChar (c : Char) : Bool :=
  isTagChar c || "!,[]".contains c

/- The bytes of a text with escapes, all of it ASCII. -/
def unescape? : List Char → Option (List UInt8)
  | [] => some []
  | '%' :: x :: y :: rest => do
      let n ← readNatBase? 16 [x, y]
      return UInt8.ofNat n :: (← unescape? rest)
  | c :: rest =>
      if c = '%' then none
      else (unescape? rest).map (UInt8.ofNat c.toNat :: ·)

/- The characters that pass a test, escapes put in. -/
def tagText?
    (p : Char → Bool)
    (c : Cursor) : Option (List Char × Cursor) := do
  let (text, c) := c.span p
  let bytes ← unescape? text
  let s ← String.fromUTF8? ⟨bytes.toArray⟩
  return (s.toList, c)

------------------------------------------------------------
-- Reading
------------------------------------------------------------

/- The word of a handle, and whether a second mark ends it. -/
def handleWord (c : Cursor) : List Char × Bool × Cursor :=
  let (word, after) := c.skip.span isWord
  if after.sees '!' then
    ('!' :: word ++ ['!'], true, after.skip)
  else
    ('!' :: word, false, after)

namespace Tag

/-
  A tag from its first mark on: `!<tag>`, or a handle and a
  suffix.  A single mark that nothing follows has no handle.
-/
def read? (c : Cursor) : Option (Tag × Cursor) :=
  if c.sees '<' 1 then do
    let (tag, c) ← tagText? isStemChar (c.skip 2)
    if c.sees '>' ∧ !tag.isEmpty then
      return (⟨[], tag⟩, c.skip)
    else
      none
  else
    let (handle, closed, after) := handleWord c
    if closed then do
      let (suffix, c) ← tagText? isTagChar after
      if suffix.isEmpty then none else return (⟨handle, suffix⟩, c)
    else do
      let (suffix, c) ← tagText? isTagChar c.skip
      if suffix.isEmpty then
        return (⟨[], ['!']⟩, c)
      else
        return (⟨['!'], suffix⟩, c)

end Tag

------------------------------------------------------------
-- Handles
------------------------------------------------------------

/- Handles with the stems that they stand for. -/
abbrev Handles :=
  List (List Char × List Char)

/- The handles that need no directive. -/
def usualHandles : Handles :=
  [(['!'], ['!']),
    (['!', '!'], "tag:yaml.org,2002:".toList)]

/- A handle and its stem, as a directive declares them. -/
def handle?
    (c : Cursor) : Option ((List Char × List Char) × Cursor) := do
  guard (c.sees '!')
  let (handle, closed, c) := handleWord c
  let (blanks, c) := c.span isBlank
  let startsStem := c.peek.any fun x => x = '!' || isTagChar x
  if blanks.isEmpty || !startsStem
      || !(closed || handle = ['!']) then
    none
  else
    let (stem, c) ← tagText? isStemChar c
    return ((handle, stem), c)

/- A tag in full; its handle has to be known. -/
def Tag.resolve?
    (handles : Handles)
    (t : Tag) : Option (List Char) :=
  if t.handle.isEmpty then
    some t.suffix
  else do
    let stem ← (handles ++ usualHandles).lookup t.handle
    return stem ++ t.suffix

end Yaml

end OrderWatch
