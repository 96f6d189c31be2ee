import OrderWatch.Json.Number

/-
  Reading JSON text.

  A reader takes a list of characters and answers with what
  it has read and the characters after it.  Every value read
  takes at least one character, so the length of the text
  bounds the rounds (`fuel`).

  Key definitions:
    * `Json.readString`
    * `Json.readNumber`
    * `Json.readValue`
    * `Json.parse?`
-/

namespace OrderWatch

namespace Json

open Text

abbrev Reader (α : Type) :=
  List Char → Option (α × List Char)

/- The blanks between the parts of a JSON text. -/
def isSpace (c : Char) : Bool :=
  c == ' ' || c == '\n' || c == '\t' || c == '\r'

/- A text without the blanks at its start. -/
def skipSpace (cs : List Char) : List Char :=
  cs.dropWhile isSpace

------------------------------------------------------------
-- Strings
------------------------------------------------------------

/- One element of a string: a character or half of one. -/
inductive Piece where
  | whole (c : Char)
  | half (code : Nat)
deriving DecidableEq, Repr

/- The piece of a code of four hexadecimal digits. -/
def Piece.ofCode (code : Nat) : Piece :=
  if 0xD800 ≤ code ∧ code < 0xE000 then
    .half code
  else
    .whole (Char.ofNat code)

/-
  The characters of a string.  Halves have to stand in pairs
  of a leading and a trailing one.
-/
def joinPieces : List Piece → Option (List Char)
  | [] => some []
  | .whole c :: rest => (joinPieces rest).map (c :: ·)
  | .half a :: .half b :: rest =>
      if a < 0xDC00 ∧ 0xDC00 ≤ b then
        let code := 0x10000 + (a - 0xD800) * 0x400 + (b - 0xDC00)
        (joinPieces rest).map (Char.ofNat code :: ·)
      else
        none
  | .half _ :: _ => none

/- What a letter after a backslash stands for. -/
def escape? (c : Char) : Option Char :=
  match c with
  | '"' => some '"'
  | '\\' => some '\\'
  | '/' => some '/'
  | 'b' => some '\x08'
  | 'f' => some '\x0c'
  | 'n' => some '\n'
  | 'r' => some '\r'
  | 't' => some '\t'
  | _ => none

/- The pieces of a string up to its closing quote. -/
def readPieces : Reader (List Piece)
  | [] => none
  | '"' :: rest => some ([], rest)
  | '\\' :: 'u' :: a :: b :: c :: d :: rest =>
      match hexDigit? a, hexDigit? b, hexDigit? c, hexDigit? d with
      | some a, some b, some c, some d =>
          let code := ((a * 16 + b) * 16 + c) * 16 + d
          (readPieces rest).map fun (pieces, rest) =>
            (Piece.ofCode code :: pieces, rest)
      | _, _, _, _ => none
  | '\\' :: c :: rest =>
      match escape? c with
      | some e =>
          (readPieces rest).map fun (pieces, rest) =>
            (.whole e :: pieces, rest)
      | none => none
  | c :: rest =>
      if c.toNat < 0x20 ∨ c = '\\' then
        none
      else
        (readPieces rest).map fun (pieces, rest) =>
          (.whole c :: pieces, rest)

/- A string, its opening quote already taken. -/
def readString : Reader (Option String) :=
  fun cs =>
    (readPieces cs).map fun (pieces, rest) =>
      ((joinPieces pieces).map String.ofList, rest)

------------------------------------------------------------
-- Numbers
------------------------------------------------------------

/- The digits after a point: at least one. -/
def readFraction : Reader (Option (List Char))
  | '.' :: rest =>
      let (digits, rest) := spanDigits rest
      if digits.isEmpty then none else some (some digits, rest)
  | rest => some (none, rest)

/-
  The exponent of a number: whether it is negative, and its
  digits, at least one.
-/
def readExponent : Reader (Option (Bool × List Char)) :=
  fun cs =>
    let digits := fun (down : Bool) (rest : List Char) =>
      let (digits, rest) := spanDigits rest
      if digits.isEmpty then
        none
      else
        some (some (down, digits), rest)
    match cs with
    | c :: rest =>
        if c = 'e' ∨ c = 'E' then
          match rest with
          | '-' :: rest => digits true rest
          | '+' :: rest => digits false rest
          | rest => digits false rest
        else
          some (none, cs)
    | [] => some (none, [])

/-
  A number.  Its whole part is zero or starts with another
  digit.
-/
def readNumber : Reader Number :=
  fun cs =>
    let (negative, cs) :=
      match cs with
      | '-' :: rest => (true, rest)
      | rest => (false, rest)
    let (whole, cs) := spanDigits cs
    if whole.isEmpty ∨ (whole.head? = some '0' ∧ 1 < whole.length)
    then
      none
    else
      match readFraction cs with
      | none => none
      | some (fraction, cs) =>
          (readExponent cs).map fun (exponent, rest) =>
            (Number.ofDigits negative whole fraction exponent,
              rest)

------------------------------------------------------------
-- Values
------------------------------------------------------------

mutual

/- A value, blanks before it skipped. -/
def readValue : Nat → Reader Json
  | 0, _ => none
  | fuel + 1, cs =>
      match skipSpace cs with
      | 'n' :: 'u' :: 'l' :: 'l' :: rest => some (.null, rest)
      | 't' :: 'r' :: 'u' :: 'e' :: rest =>
          some (.bool true, rest)
      | 'f' :: 'a' :: 'l' :: 's' :: 'e' :: rest =>
          some (.bool false, rest)
      | '"' :: rest =>
          (readString rest).map fun (s, rest) => (.string s, rest)
      | '[' :: rest =>
          match skipSpace rest with
          | ']' :: rest => some (.array [], rest)
          | rest =>
              (readItems fuel rest).map fun (items, rest) =>
                (.array items, rest)
      | '\x7b' :: rest =>
          match skipSpace rest with
          | '\x7d' :: rest => some (.object [], rest)
          | rest =>
              (readFields fuel rest).map fun (fields, rest) =>
                (.object fields, rest)
      | cs => (readNumber cs).map fun (n, rest) => (.number n, rest)

/- The items of an array up to its closing bracket. -/
def readItems : Nat → Reader (List Json)
  | 0, _ => none
  | fuel + 1, cs =>
      match readValue fuel cs with
      | none => none
      | some (item, cs) =>
          match skipSpace cs with
          | ',' :: rest =>
              (readItems fuel rest).map fun (items, rest) =>
                (item :: items, rest)
          | ']' :: rest => some ([item], rest)
          | _ => none

/- The fields of an object up to its closing brace. -/
def readFields : Nat → Reader (List (Option String × Json))
  | 0, _ => none
  | fuel + 1, cs =>
      match skipSpace cs with
      | '"' :: cs =>
          match readString cs with
          | none => none
          | some (name, cs) =>
              match skipSpace cs with
              | ':' :: cs =>
                  match readValue fuel cs with
                  | none => none
                  | some (value, cs) =>
                      match skipSpace cs with
                      | ',' :: rest =>
                          (readFields fuel rest).map
                            fun (fields, rest) =>
                              ((name, value) :: fields, rest)
                      | '\x7d' :: rest =>
                          some ([(name, value)], rest)
                      | _ => none
              | _ => none
      | _ => none

end

/-
  The value of a text that holds one and nothing else but
  blanks.
-/
def parse? (cs : List Char) : Option Json :=
  match readValue (2 * cs.length + 1) cs with
  | none => none
  | some (value, rest) =>
      if (skipSpace rest).isEmpty then some value else none

end Json

end OrderWatch
