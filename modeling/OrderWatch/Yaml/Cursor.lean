/-
  A place in a YAML text.

  What may stand where depends on columns and lines, so a
  cursor counts them as it moves.

  Key definitions:
    * `Yaml.isBreak`, `Yaml.isFirmBreak`, `Yaml.isBlank`
    * `Yaml.isPrintable`
    * `Yaml.Cursor`
    * `Yaml.Cursor.skip`, `Yaml.Cursor.readBreak`
-/

namespace OrderWatch

namespace Yaml

------------------------------------------------------------
-- Characters
------------------------------------------------------------

/- The characters that end a line in every respect. -/
def isFirmBreak (c : Char) : Bool :=
  c = '\n' || c = '\r'

/-
  The characters that end a line.  Those that are not firm do
  not part a mark from what may not stand beside it.
-/
def isBreak (c : Char) : Bool :=
  isFirmBreak c || c = '\u0085' || c = '\u2028'
    || c = '\u2029'

def isBlank (c : Char) : Bool :=
  c = ' ' || c = '\t'

/- The characters that a text may hold. -/
def isPrintable (c : Char) : Bool :=
  let n := c.toNat
  n = 9 || n = 10 || n = 13 || (0x20 ≤ n && n ≤ 0x7E)
    || n = 0x85 || (0xA0 ≤ n && n ≤ 0xFFFD) || 0x10000 ≤ n

/- The characters of names of anchors and directives. -/
def isWord (c : Char) : Bool :=
  c.isAlphanum || c = '_' || c = '-'

------------------------------------------------------------
-- Cursors
------------------------------------------------------------

/-
  A place, with the text from there on.  The number of the
  characters left is kept, as it bounds every reader.
-/
structure Cursor where
  rest : List Char
  left : Nat
  line : Nat
  column : Nat
  /- The number of bytes passed. -/
  index : Nat
  left_eq_length : left = rest.length
deriving Repr

namespace Cursor

/- The number of bytes that characters take. -/
def width (cs : List Char) : Nat :=
  cs.foldr (fun c n => c.utf8Size + n) 0

/-
  The place where a text begins.  A byte order mark is passed
  over, but takes up a column.
-/
def ofText : List Char → Cursor
  | '\ufeff' :: cs => ⟨cs, cs.length, 0, 1, width ['\ufeff'], rfl⟩
  | cs => ⟨cs, cs.length, 0, 0, 0, rfl⟩

instance : Inhabited Cursor :=
  ⟨ofText []⟩

/- The character a number of places on, if there is one. -/
def peek (c : Cursor) (n : Nat := 0) : Option Char :=
  c.rest[n]?

/- Whether a character stands a number of places on. -/
def sees (c : Cursor) (x : Char) (n : Nat := 0) : Bool :=
  c.peek n == some x

def seesBlank (c : Cursor) (n : Nat := 0) : Bool :=
  (c.peek n).any isBlank

def seesBreak (c : Cursor) (n : Nat := 0) : Bool :=
  (c.peek n).any isBreak

/- Whether the line ends a number of places on. -/
def seesEnd (c : Cursor) (n : Nat := 0) : Bool :=
  (c.peek n).all isBreak

/- Whether the line ends there in every respect. -/
def seesFirmEnd (c : Cursor) (n : Nat := 0) : Bool :=
  (c.peek n).all isFirmBreak

/- Whether a blank or the end of the line stands there. -/
def seesGap (c : Cursor) (n : Nat := 0) : Bool :=
  c.seesBlank n || c.seesEnd n

/-
  Whether a document is opened by `---` or closed by `...`
  here.
-/
def seesMark (c : Cursor) (x : Char) : Bool :=
  c.column == 0 && c.sees x && c.sees x 1 && c.sees x 2
    && c.seesGap 3

def seesBoundary (c : Cursor) : Bool :=
  c.seesMark '-' || c.seesMark '.'

/- Move on by some characters of the line. -/
def skip (c : Cursor) (n : Nat := 1) : Cursor :=
  { rest := c.rest.drop n
    left := c.left - n
    line := c.line
    column := c.column + n
    index := c.index + width (c.rest.take n)
    left_eq_length := by
      rw [List.length_drop, c.left_eq_length] }

/-
  Move to the next line.  The answer is the character that
  the line break counts as.
-/
def readBreak (c : Cursor) : Cursor × Char :=
  let down (n : Nat) : Cursor :=
    { c.skip n with line := c.line + 1, column := 0 }
  match c.rest with
  | '\r' :: '\n' :: _ => (down 2, '\n')
  | x :: _ =>
      let y := if x = '\u2028' || x = '\u2029' then x else '\n'
      (down 1, y)
  | [] => (c, '\n')

/- The characters that pass a test, and what follows them. -/
def span (c : Cursor) (p : Char → Bool) : List Char × Cursor :=
  let found := c.rest.takeWhile p
  (found, c.skip found.length)

def skipBlanks (c : Cursor) : Cursor :=
  (c.span isBlank).2

/- Move to the end of the line. -/
def skipLine (c : Cursor) : Cursor :=
  (c.span fun x => !isBreak x).2

end Cursor

end Yaml

end OrderWatch
