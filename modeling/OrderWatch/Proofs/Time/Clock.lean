import Mathlib.Algebra.GroupWithZero.Nat
import OrderWatch.Time.Clock

/-
  How far the readings of a clock go forward.

  The elapsed time does not fall as long as its steps add up
  to less than the count can hold; the step that goes beyond
  sets it back.  The wall time reads the start of 1970 where
  the calendar has no date.  So it falls with a step that
  takes the count out of the calendar from a time after that
  start, and with one that brings it back in before it, which
  it does only by wrapping around or from the far past.

  Main declarations:
    * `Moment.hasDate`, `Moment.shown`
    * `Moment.ofMillis_le_iff`
    * `Clock.Along`, `Clock.Rising`, `Clock.Strays`
    * `Clock.elapsed_le_advance_iff`
    * `Clock.now_le_advance_iff`
    * `Clock.rising_elapsed_iff`, `Clock.elapsed_foldl`
    * `Clock.rising_now_iff`
    * `Clock.rising_now_iff_hasDate`
-/

namespace OrderWatch

namespace Time

------------------------------------------------------------
-- Moments in order
------------------------------------------------------------

namespace Moment

/- One moment is not after another. -/
instance : LE Moment where
  le m n :=
    m.seconds < n.seconds ∨
      m.seconds = n.seconds ∧ m.nanos ≤ n.nanos

instance (m n : Moment) : Decidable (m ≤ n) :=
  inferInstanceAs (Decidable (_ ∨ _))

/- Whether the calendar has a count of milliseconds. -/
def hasDate (millis : Int) : Bool :=
  inCalendar (millis / 1000)

/- The count that is shown for a count. -/
def shown (millis : Int) : Int :=
  if hasDate millis then
    millis
  else
    0

theorem hasDate_iff
    {millis : Int} :
    hasDate millis = true ↔
      -8334601228800000 ≤ millis ∧
        millis ≤ 8210266876799999 := by
  have hMin : minSeconds = -8334601228800 := by decide
  have hMax : maxSeconds = 8210266876799 := by decide
  unfold hasDate inCalendar
  rw [hMin, hMax, Bool.and_eq_true, decide_eq_true_iff,
    decide_eq_true_iff]
  omega

theorem ofMillis_eq_shown
    (millis : Int) :
    ofMillis millis =
      ⟨shown millis / 1000,
        (shown millis % 1000).toNat * 1000000⟩ := by
  unfold ofMillis shown hasDate
  by_cases hDate : inCalendar (millis / 1000) = true
  · simp [hDate]
  · simp [hDate, epoch]

/- Moments are in the order of the counts that are shown. -/
theorem ofMillis_le_iff
    {t u : Int} :
    ofMillis t ≤ ofMillis u ↔ shown t ≤ shown u := by
  rw [ofMillis_eq_shown, ofMillis_eq_shown]
  change _ < _ ∨ _ = _ ∧ _ * 1000000 ≤ _ * 1000000 ↔ _
  simp only
  omega

end Moment

namespace Clock

open Moment

variable {c : Clock} {nanos : Nat} {spans : List Nat}

------------------------------------------------------------
-- Steps
------------------------------------------------------------

/- By how many nanoseconds a step moves the elapsed time. -/
def elapsedStep (nanos : Nat) : Nat :=
  min nanos (2 ^ 64 - 1)

/- By how many milliseconds it moves the wall time. -/
def wallStep (nanos : Nat) : Nat :=
  min (nanos / 1000000) (2 ^ 63 - 1)

theorem elapsedStep_lt
    (nanos : Nat) :
    elapsedStep nanos < 2 ^ 64 := by
  unfold elapsedStep
  omega

theorem wallStep_lt
    (nanos : Nat) :
    wallStep nanos < 2 ^ 63 := by
  unfold wallStep
  omega

theorem elapsed_lt
    (c : Clock) :
    c.elapsed < 2 ^ 64 :=
  c.sinceStart.toNat_lt

theorem elapsed_advance
    (c : Clock)
    (nanos : Nat) :
    (c.advance nanos).elapsed =
      (c.elapsed + elapsedStep nanos) % 2 ^ 64 := by
  have hStep :=
    UInt64.toNat_ofNat_of_lt' (elapsedStep_lt nanos)
  change (c.sinceStart + .ofNat (elapsedStep nanos)).toNat = _
  rw [UInt64.toNat_add, hStep]
  rfl

/- The wall time goes on, or wraps around to the far past. -/
theorem wall_advance
    (c : Clock)
    (nanos : Nat) :
    let next := c.wall.toInt + wallStep nanos
    (c.advance nanos).wall.toInt =
      if next < 2 ^ 63 then next else next - 2 ^ 64 := by
  intro next
  have hLow := c.wall.le_toInt
  have hHigh := c.wall.toInt_lt
  have hStep := wallStep_lt nanos
  have hMoved :
      (c.advance nanos).wall.toInt = next.bmod (2 ^ 64) := by
    change (c.wall + Int64.ofNat (wallStep nanos)).toInt = _
    rw [Int64.toInt_add, Int64.toInt_ofNat_of_lt hStep]
  rw [hMoved, Int.bmod_def]
  omega

/- The elapsed time falls if its count overflows. -/
theorem elapsed_le_advance_iff :
    c.elapsed ≤ (c.advance nanos).elapsed ↔
      c.elapsed + elapsedStep nanos < 2 ^ 64 := by
  have hElapsed := c.elapsed_lt
  have hStep := elapsedStep_lt nanos
  rw [elapsed_advance]
  omega

/-
  A step is too short to take the wall time all the way round
  from one date to another.
-/
theorem wall_advance_of_dates
    (hDate : hasDate c.wall.toInt = true)
    (hDate' : hasDate (c.advance nanos).wall.toInt = true) :
    (c.advance nanos).wall.toInt =
      c.wall.toInt + wallStep nanos := by
  have hMoved := c.wall_advance nanos
  have hStep := wallStep_lt nanos
  rw [hasDate_iff] at hDate hDate'
  simp only at hMoved
  split at hMoved <;> omega

/-
  A count of milliseconds leaves the calendar after the start
  of 1970, or enters it before that.
-/
def Strays (t t' : Int) : Prop :=
  (hasDate t = true ∧ hasDate t' = false ∧ 0 < t) ∨
    (hasDate t = false ∧ hasDate t' = true ∧ t' < 0)

instance (t t' : Int) : Decidable (Strays t t') :=
  inferInstanceAs (Decidable (_ ∨ _))

/- The wall time falls if its count strays. -/
theorem now_le_advance_iff :
    c.now ≤ (c.advance nanos).now ↔
      ¬ Strays c.wall.toInt (c.advance nanos).wall.toInt := by
  unfold now
  rw [ofMillis_le_iff]
  unfold shown Strays
  cases hDate : hasDate c.wall.toInt with
  | true =>
      cases hDate' : hasDate (c.advance nanos).wall.toInt with
      | true =>
          have hMoved := wall_advance_of_dates hDate hDate'
          have hLater :
              c.wall.toInt ≤ (c.advance nanos).wall.toInt := by
            omega
          simpa using hLater
      | false => simp
  | false =>
      cases hDate' : hasDate (c.advance nanos).wall.toInt with
      | true => simp
      | false => simp

------------------------------------------------------------
-- Runs
------------------------------------------------------------

/- Every step of a run has a property. -/
def Along
    (P : Clock → Clock → Prop) : Clock → List Nat → Prop
  | _, [] => True
  | c, nanos :: spans =>
      P c (c.advance nanos) ∧ Along P (c.advance nanos) spans

instance decidableAlong
    (P : Clock → Clock → Prop)
    [∀ c c', Decidable (P c c')] :
    ∀ c spans, Decidable (Along P c spans)
  | _, [] => instDecidableTrue
  | c, nanos :: spans =>
      have := decidableAlong P (c.advance nanos) spans
      inferInstanceAs (Decidable (_ ∧ _))

/- A property that not every step has is missing at one. -/
theorem exists_of_not_along
    {P : Clock → Clock → Prop}
    (hFails : ¬ c.Along P spans) :
    ∃ before nanos after,
      spans = before ++ nanos :: after ∧
        let c' := before.foldl advance c
        ¬ P c' (c'.advance nanos) := by
  induction spans generalizing c with
  | nil => exact absurd trivial hFails
  | cons nanos spans ih =>
      by_cases hStep : P c (c.advance nanos)
      · have hRest : ¬ (c.advance nanos).Along P spans :=
          fun hRest => hFails ⟨hStep, hRest⟩
        rcases ih hRest with ⟨before, step, after, rfl, hFall⟩
        exact ⟨nanos :: before, step, after, rfl, hFall⟩
      · exact ⟨[], nanos, spans, rfl, hStep⟩

/- A reading never falls. -/
def Rising
    {α : Type}
    [LE α]
    (reading : Clock → α)
    (c : Clock)
    (spans : List Nat) : Prop :=
  c.Along (fun c c' => reading c ≤ reading c') spans

instance
    {α : Type}
    [LE α]
    [∀ a b : α, Decidable (a ≤ b)]
    (reading : Clock → α)
    (c : Clock)
    (spans : List Nat) :
    Decidable (c.Rising reading spans) :=
  inferInstanceAs (Decidable (Along _ _ _))

/-
  The elapsed time never falls if all the steps together fit
  into its count.
-/
theorem rising_elapsed_iff :
    c.Rising elapsed spans ↔
      c.elapsed + (spans.map elapsedStep).sum < 2 ^ 64 := by
  induction spans generalizing c with
  | nil => simpa [Rising, Along] using c.elapsed_lt
  | cons nanos spans ih =>
      change
        c.elapsed ≤ (c.advance nanos).elapsed ∧
            (c.advance nanos).Rising elapsed spans ↔
          _
      rw [ih, elapsed_le_advance_iff, elapsed_advance,
        List.map_cons, List.sum_cons]
      constructor
      · rintro ⟨hFits, hRest⟩
        rw [Nat.mod_eq_of_lt hFits] at hRest
        omega
      · intro hAll
        have hFits : c.elapsed + elapsedStep nanos < 2 ^ 64 := by
          omega
        rw [Nat.mod_eq_of_lt hFits]
        exact ⟨hFits, by omega⟩

/- As long as they fit, the steps are added up. -/
theorem elapsed_foldl
    (hFits : c.elapsed + (spans.map elapsedStep).sum < 2 ^ 64) :
    (spans.foldl advance c).elapsed =
      c.elapsed + (spans.map elapsedStep).sum := by
  induction spans generalizing c with
  | nil => rfl
  | cons nanos spans ih =>
      rw [List.map_cons, List.sum_cons] at hFits ⊢
      have hNext := c.elapsed_advance nanos
      rw [Nat.mod_eq_of_lt (by omega)] at hNext
      rw [List.foldl_cons, ih (by omega), hNext, Nat.add_assoc]

/- The wall time never falls if its count never strays. -/
theorem rising_now_iff :
    c.Rising now spans ↔
      c.Along
        (fun c c' => ¬ Strays c.wall.toInt c'.wall.toInt)
        spans := by
  induction spans generalizing c with
  | nil => exact Iff.rfl
  | cons nanos spans ih =>
      exact and_congr now_le_advance_iff ih

/- A step that ends on a date, or would, does not wrap around. -/
theorem wall_advance_of_hasDate
    (hNext : hasDate (c.wall.toInt + wallStep nanos) = true) :
    (c.advance nanos).wall.toInt =
      c.wall.toInt + wallStep nanos := by
  rw [hasDate_iff] at hNext
  rw [wall_advance, if_pos (by omega)]

/-
  The wall time does not fall if there is a date at the start
  and one at the end.
-/
theorem rising_now_of_hasDate
    (hFirst : hasDate c.wall.toInt = true)
    (hLast :
      hasDate (c.wall.toInt + (spans.map wallStep).sum) =
        true) :
    c.Rising now spans := by
  rw [rising_now_iff]
  induction spans generalizing c with
  | nil => trivial
  | cons nanos spans ih =>
      rw [List.map_cons, List.sum_cons, Int.natCast_add,
        ← Int.add_assoc] at hLast
      have hDate :
          hasDate (c.wall.toInt + wallStep nanos) = true := by
        rw [hasDate_iff] at hFirst hLast ⊢
        omega
      have hNext := wall_advance_of_hasDate hDate
      rw [← hNext] at hDate hLast
      refine ⟨?_, ih hDate hLast⟩
      simp [Strays, hFirst, hDate]

/- After the start of 1970 it falls once the dates run out. -/
theorem rising_now_iff_hasDate
    (hFirst : hasDate c.wall.toInt = true)
    (hAfter : 0 < c.wall.toInt) :
    c.Rising now spans ↔
      hasDate (c.wall.toInt + (spans.map wallStep).sum) =
        true := by
  refine ⟨?_, rising_now_of_hasDate hFirst⟩
  rw [rising_now_iff]
  intro hAlong
  induction spans generalizing c with
  | nil => simpa using hFirst
  | cons nanos spans ih =>
      rcases hAlong with ⟨hStays, hRest⟩
      have hDate :
          hasDate (c.advance nanos).wall.toInt = true := by
        simpa [Strays, hFirst, hAfter] using hStays
      have hNext := wall_advance_of_dates hFirst hDate
      have hLast := ih hDate (by omega) hRest
      rw [hNext, Int.add_assoc, ← Int.natCast_add] at hLast
      exact hLast

/- One millisecond after the last date of the calendar. -/
example :
    let c := startingAt 8210266876799999
    c.now.seconds = 8210266876799 ∧
      (c.advance 1000000).now = epoch ∧
      ¬ c.Rising now [1000000] := by
  decide

end Clock

end Time

end OrderWatch
