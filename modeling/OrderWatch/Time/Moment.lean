import OrderWatch.Time.Calendar

/-
  Moments in time: seconds since the start of 1970 and
  nanoseconds of the second.

  A nanosecond count of a thousand million or more stands for
  a leap second, which follows the second it is counted in.
  The calendar runs from year -262143 to year 262142; a count
  of milliseconds outside it stands for the start of 1970.

  Key definitions:
    * `Moment`
    * `Moment.ofMillis`
    * `Moment.millis`
    * `Moment.date`
-/

namespace OrderWatch

namespace Time

structure Moment where
  seconds : Int
  nanos : Nat
deriving DecidableEq, Repr, Inhabited

namespace Moment

/- The first second of the calendar. -/
def minSeconds : Int :=
  (Date.days ⟨-262143, 1, 1⟩) * 86400

/- The last second of the calendar. -/
def maxSeconds : Int :=
  (Date.days ⟨262142, 12, 31⟩) * 86400 + 86399

/- Whether the calendar has the second. -/
def inCalendar (seconds : Int) : Bool :=
  minSeconds ≤ seconds && seconds ≤ maxSeconds

/- The start of 1970. -/
def epoch : Moment :=
  ⟨0, 0⟩

/-
  The moment a number of milliseconds after the start of
  1970, or that start if the calendar does not reach so far.
-/
def ofMillis (millis : Int) : Moment :=
  let seconds := millis / 1000
  if inCalendar seconds then
    ⟨seconds, (millis % 1000).toNat * 1000000⟩
  else
    epoch

/- The whole milliseconds since the start of 1970. -/
def millis (m : Moment) : Int :=
  m.seconds * 1000 + m.nanos / 1000000

/- The date of a moment. -/
def date (m : Moment) : Date :=
  Date.ofDays (m.seconds / 86400)

/- The second of its day. -/
def secondOfDay (m : Moment) : Nat :=
  (m.seconds % 86400).toNat

example : minSeconds = -8334601228800 := by decide

example : maxSeconds = 8210266876799 := by decide

end Moment

end Time

end OrderWatch
