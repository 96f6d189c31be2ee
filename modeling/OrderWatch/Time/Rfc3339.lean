import OrderWatch.Power
import OrderWatch.Time.Moment
import OrderWatch.Text.Blank
import OrderWatch.Text.Digits

/-
  Moments as RFC 3339 text.

  A moment is written in universal time with a fraction of
  none, three, six or nine digits, whichever is the shortest
  that is exact; years outside 0 to 9999 get a sign.  Reading
  is laxer than the standard: blanks may stand before every
  number and every mark, a blank or a small letter may stand
  for `T`, the offset may lack its colon, and the word UTC
  may stand for it.

  Key definitions:
    * `Moment.text`
    * `Moment.zoned`
    * `Moment.read?`
-/

namespace OrderWatch

namespace Time

namespace Moment

open Text

------------------------------------------------------------
-- Writing
------------------------------------------------------------

/- A year on four digits, with its sign outside 0 to 9999. -/
def yearText (year : Int) : List Char :=
  if 0 ≤ year ∧ year ≤ 9999 then
    padded 4 year.natAbs
  else
    (if year < 0 then '-' else '+') :: padded 4 year.natAbs

/- The shortest exact fraction of a second. -/
def fractionText (nanos : Nat) : List Char :=
  if nanos = 0 then
    []
  else if nanos % 1000000 = 0 then
    '.' :: padded 3 (nanos / 1000000)
  else if nanos % 1000 = 0 then
    '.' :: padded 6 (nanos / 1000)
  else
    '.' :: padded 9 nanos

/-
  Date and time of day of a moment.  A leap second is the
  sixtieth of its minute.
-/
def plainText (m : Moment) : List Char :=
  let d := m.date
  let s := m.secondOfDay
  let leap := m.nanos / 1000000000
  yearText d.year ++ '-' :: padded 2 d.month
    ++ '-' :: padded 2 d.day
    ++ 'T' :: padded 2 (s / 3600)
    ++ ':' :: padded 2 (s / 60 % 60)
    ++ ':' :: padded 2 (s % 60 + leap)
    ++ fractionText (m.nanos % 1000000000)

/- The text of a moment, ended by the letter `Z`. -/
def text (m : Moment) : String :=
  String.ofList (m.plainText ++ ['Z'])

/- The text of a moment, ended by the zero offset. -/
def zoned (m : Moment) : String :=
  String.ofList (m.plainText ++ "+00:00".toList)

------------------------------------------------------------
-- Reading the parts
------------------------------------------------------------

/- A reader answers with the value read and the rest. -/
abbrev Reader (α : Type) :=
  List Char → Option (α × List Char)

/- From one to `limit` digits, blanks before them skipped. -/
def readNumber (limit : Nat) : Reader Nat :=
  fun cs =>
    let cs := trimStart cs
    let digits := (spanDigits cs).1.take limit
    if digits.isEmpty then
      none
    else
      some (ofDigits digits, cs.drop digits.length)

/-
  A year: four digits at most, or any number of them after a
  sign.
-/
def readYear : Reader Int :=
  fun cs =>
    let signed := fun (negative : Bool) (rest : List Char) =>
      let (digits, rest) := spanDigits rest
      if digits.isEmpty then
        none
      else
        let n : Int := ofDigits digits
        some (if negative then -n else n, rest)
    match trimStart cs with
    | '-' :: rest => signed true rest
    | '+' :: rest => signed false rest
    | rest =>
        (readNumber 4 rest).map fun (n, rest) => ((n : Int), rest)

/- A given mark, blanks before it skipped. -/
def readMark (mark : Char) : Reader Unit :=
  fun cs =>
    match trimStart cs with
    | c :: rest => if c = mark then some ((), rest) else none
    | [] => none

/-
  The nanoseconds of an optional fraction.  Digits past the
  ninth are dropped.
-/
def readFraction : Reader Nat :=
  fun cs =>
    match cs with
    | '.' :: rest =>
        let (digits, rest) := spanDigits rest
        if digits.isEmpty then
          none
        else
          let kept := digits.take 9
          some (ofDigits kept * 10 ^ (9 - kept.length), rest)
    | _ => some (0, cs)

/- The separator of date and time. -/
def readSeparator : Reader Unit :=
  fun cs =>
    match cs with
    | c :: rest =>
        if c = 'T' ∨ c = 't' ∨ c = ' ' then
          some ((), rest)
        else
          none
    | [] => none

/- Whether a text starts with the word UTC, in any case. -/
def startsWithUtc (cs : List Char) : Bool :=
  (cs.take 3).map Char.toUpper == ['U', 'T', 'C']

/-
  The offset from universal time in seconds: `Z`, the word
  UTC, or a sign with two digits of hours and two of minutes,
  colons and blanks between them.
-/
def readOffset : Reader Int :=
  fun cs =>
    let digits := fun (sign : Int) (rest : List Char) =>
      match rest with
      | h₁ :: h₂ :: rest =>
          match digit? h₁, digit? h₂ with
          | some h₁, some h₂ =>
              let rest := rest.dropWhile fun c =>
                c == ':' || isBlank c
              match rest with
              | m₁ :: m₂ :: rest =>
                  match digit? m₁, digit? m₂ with
                  | some m₁, some m₂ =>
                      if m₁ < 6 then
                        let minutes :=
                          (h₁ * 10 + h₂) * 60 + m₁ * 10 + m₂
                        some (sign * (minutes * 60 : Nat), rest)
                      else
                        none
                  | _, _ => none
              | _ => none
          | _, _ => none
      | _ => none
    let cs := trimStart cs
    if startsWithUtc cs then
      some (0, cs.drop 3)
    else
      match cs with
      | 'Z' :: rest => some (0, rest)
      | 'z' :: rest => some (0, rest)
      | '+' :: rest => digits 1 rest
      | '-' :: rest => digits (-1) rest
      | '\u2212' :: rest => digits (-1) rest
      | _ => none

------------------------------------------------------------
-- Reading a moment
------------------------------------------------------------

/-
  The moment of a date and a time of day at an offset, if
  there is one.  The sixtieth second of any minute is a leap
  second.
-/
def ofFields?
    (date : Date)
    (hour minute second nanos : Nat)
    (offset : Int) : Option Moment :=
  let leap := second = 60
  let counted := if leap then 59 else second
  let time := (hour * 60 + minute) * 60 + counted
  let here := date.days * 86400 + time
  let seconds := here - offset
  if date.isValid ∧ hour < 24 ∧ minute < 60 ∧ second ≤ 60
      ∧ offset.natAbs < 86400 ∧ inCalendar here
      ∧ inCalendar seconds then
    some ⟨seconds, if leap then 1000000000 + nanos else nanos⟩
  else
    none

/- A moment from its text. -/
def read? (cs : List Char) : Option Moment := do
  let (year, cs) ← readYear cs
  let ((), cs) ← readMark '-' cs
  let (month, cs) ← readNumber 2 cs
  let ((), cs) ← readMark '-' cs
  let (day, cs) ← readNumber 2 cs
  let ((), cs) ← readSeparator cs
  let (hour, cs) ← readNumber 2 cs
  let ((), cs) ← readMark ':' cs
  let (minute, cs) ← readNumber 2 cs
  let ((), cs) ← readMark ':' cs
  let (second, cs) ← readNumber 2 cs
  let (nanos, cs) ← readFraction cs
  let (offset, cs) ← readOffset cs
  if (trimStart cs).isEmpty then
    ofFields? ⟨year, month, day⟩ hour minute second nanos offset
  else
    none

end Moment

end Time

end OrderWatch
