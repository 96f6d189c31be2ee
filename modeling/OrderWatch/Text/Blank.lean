/-
  White space as Unicode defines it.

  `isBlank` holds of the twenty-five code points with the
  property White_Space, which are more than ASCII knows: the
  no-break space and the ideographic space are among them,
  the byte order mark and the zero-width space are not.
-/

namespace OrderWatch

namespace Text

/- The Unicode property White_Space. -/
def isBlank (c : Char) : Bool :=
  let n := c.toNat
  (9 ≤ n && n ≤ 13) || n = 0x20 || n = 0x85 || n = 0xA0
    || n = 0x1680 || (0x2000 ≤ n && n ≤ 0x200A)
    || n = 0x2028 || n = 0x2029 || n = 0x202F
    || n = 0x205F || n = 0x3000

/- A text without the blanks at its start. -/
def trimStart (cs : List Char) : List Char :=
  cs.dropWhile isBlank

/- A text without the blanks at either end. -/
def trim (cs : List Char) : List Char :=
  (trimStart (trimStart cs).reverse).reverse

example : trim "\t a b\u3000".toList = "a b".toList := by
  decide

end Text

end OrderWatch
