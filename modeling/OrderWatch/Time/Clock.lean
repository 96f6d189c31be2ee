import OrderWatch.Power
import OrderWatch.Time.Moment

/-
  A clock that is moved by hand.

  It shows the wall time in milliseconds and the time elapsed
  since its start in nanoseconds.  Both are counted on 64
  bits and wrap around: the wall time as a signed number, the
  elapsed time as an unsigned one.

  Key definitions:
    * `Clock`
    * `Clock.startingAt`
    * `Clock.advance`
    * `Clock.now`
    * `Clock.elapsed`
-/

namespace OrderWatch

namespace Time

structure Clock where
  wall : Int64
  sinceStart : UInt64
deriving DecidableEq, Repr, Inhabited

namespace Clock

/- A clock whose wall time is the given one. -/
def startingAt (millis : Int64) : Clock :=
  ⟨millis, 0⟩

/-
  The clock moved on by a number of nanoseconds.  A step too
  long for a counter moves it by the most that it can hold.
-/
def advance (c : Clock) (nanos : Nat) : Clock :=
  { wall := c.wall + Int64.ofNat (min (nanos / 1000000) (2 ^ 63 - 1))
    sinceStart :=
      c.sinceStart + UInt64.ofNat (min nanos (2 ^ 64 - 1)) }

/- The wall time, as the calendar has it. -/
def now (c : Clock) : Moment :=
  Moment.ofMillis c.wall.toInt

/- The nanoseconds since the start. -/
def elapsed (c : Clock) : Nat :=
  c.sinceStart.toNat

end Clock

end Time

end OrderWatch
