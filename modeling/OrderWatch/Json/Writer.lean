import OrderWatch.Json
import OrderWatch.Floating

/-
  Writing JSON text.

  Nothing is written between the parts of a value.  Quotes,
  backslashes and control characters are escaped, all other
  characters stand for themselves.

  Key definitions:
    * `Json.quoted`
    * `Json.chars`
    * `Json.text`
-/

namespace OrderWatch

namespace Json

open Text

/- How a character is written inside a string. -/
def charText (c : Char) : List Char :=
  match c with
  | '"' => ['\\', '"']
  | '\\' => ['\\', '\\']
  | '\x08' => ['\\', 'b']
  | '\x0c' => ['\\', 'f']
  | '\n' => ['\\', 'n']
  | '\r' => ['\\', 'r']
  | '\t' => ['\\', 't']
  | c =>
      if c.toNat < 0x20 then
        '\\' :: 'u' :: hexPadded 4 c.toNat
      else
        [c]

/- A string with its quotes. -/
def quoted (s : String) : List Char :=
  '"' :: s.toList.flatMap charText ++ ['"']

/- A number. -/
def Number.text : Number → List Char
  | .natural n => natText n
  | .negative n => '-' :: natText n
  | .floating x => Floating.text x
  | .beyond => "null".toList

mutual

/- The text of a value. -/
def chars : Json → List Char
  | .null => "null".toList
  | .bool true => "true".toList
  | .bool false => "false".toList
  | .number n => n.text
  | .string s => quoted (s.getD "")
  | .array [] => ['[', ']']
  | .array (item :: items) =>
      '[' :: chars item ++ itemChars items
  | .object [] => ['\x7b', '\x7d']
  | .object ((name, value) :: fields) =>
      '\x7b' :: quoted (name.getD "") ++ ':' :: chars value
        ++ fieldChars fields

/- The further items of an array and its closing bracket. -/
def itemChars : List Json → List Char
  | [] => [']']
  | item :: items => ',' :: chars item ++ itemChars items

/- The further fields of an object and its closing brace. -/
def fieldChars : List (Option String × Json) → List Char
  | [] => ['\x7d']
  | (name, value) :: fields =>
      ',' :: quoted (name.getD "") ++ ':' :: chars value
        ++ fieldChars fields

end

/- The text of a value as one string. -/
def text (j : Json) : String :=
  String.ofList (chars j)

end Json

end OrderWatch
