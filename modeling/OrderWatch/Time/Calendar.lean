/-
  Days of the Gregorian calendar, counted from 1 January
  1970, for years of either sign.

  Years are taken to begin in March, so that the leap day is
  the last of its year, and in groups of 400 years, which all
  have the same number of days.

  Key definitions:
    * `Date`
    * `Date.days`
    * `Date.ofDays`
    * `Date.isValid`
-/

namespace OrderWatch

namespace Time

structure Date where
  year : Int
  month : Nat
  day : Nat
deriving DecidableEq, Repr

/- Whether a year has a leap day. -/
def isLeap (year : Int) : Bool :=
  year % 4 = 0 && (year % 100 != 0 || year % 400 = 0)

/- The number of days of a month, zero for no month. -/
def daysInMonth (year : Int) (month : Nat) : Nat :=
  if month = 2 then
    if isLeap year then 29 else 28
  else if month ∈ [4, 6, 9, 11] then
    30
  else if 1 ≤ month ∧ month ≤ 12 then
    31
  else
    0

namespace Date

/- Whether the calendar has the date. -/
def isValid (d : Date) : Bool :=
  1 ≤ d.day && d.day ≤ daysInMonth d.year d.month

/- The days from 1 March of year 0 to 1 January 1970. -/
def epoch : Int :=
  719468

/-
  The days from 1 January 1970 to a date, negative before
  it.
-/
def days (d : Date) : Int :=
  let year := if d.month ≤ 2 then d.year - 1 else d.year
  let month : Int := (d.month + 9) % 12
  let group := year / 400
  let yearOfGroup := year % 400
  let dayOfYear := (153 * month + 2) / 5 + d.day - 1
  let dayOfGroup :=
    yearOfGroup * 365 + yearOfGroup / 4 - yearOfGroup / 100
      + dayOfYear
  group * 146097 + dayOfGroup - epoch

/- The date a number of days after 1 January 1970. -/
def ofDays (days : Int) : Date :=
  let shifted := days + epoch
  let group := shifted / 146097
  let dayOfGroup := shifted % 146097
  let yearOfGroup :=
    (dayOfGroup - dayOfGroup / 1460 + dayOfGroup / 36524
      - dayOfGroup / 146096) / 365
  let dayOfYear :=
    dayOfGroup - (365 * yearOfGroup + yearOfGroup / 4
      - yearOfGroup / 100)
  let marchMonth := (5 * dayOfYear + 2) / 153
  let day := dayOfYear - (153 * marchMonth + 2) / 5 + 1
  let month := (marchMonth + 2) % 12 + 1
  let year := yearOfGroup + group * 400
  { year := if month ≤ 2 then year + 1 else year
    month := month.toNat
    day := day.toNat }

example : (⟨1970, 1, 1⟩ : Date).days = 0 := by decide

example : ofDays 20472 = ⟨2026, 1, 19⟩ := by decide

example : ofDays (-719162) = ⟨1, 1, 1⟩ := by decide

end Date

end Time

end OrderWatch
