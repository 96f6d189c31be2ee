import OrderWatch.Proofs.Desk.Gauges
import OrderWatch.Proofs.Time.Clock

/-
  What the cache owes to the clock.

  An order is dated by the elapsed time when it is retired.
  While that does not fall, the orders lie in the cache by
  their dates, and the expired ones among them are the oldest:
  their number is told rightly, and a purge drops them all.
  Once its count overflows, a newer order is dated before the
  older ones and expires behind them, where it is not met.

  Main declarations:
    * `Cache.Punctual`, `Cache.Timely.punctual`
    * `Deed.spans`, `Tracker.onward_iff`
    * `Tracker.punctual_afterAll`
    * `Tracker.readings_rise_iff`
    * `Desk.punctual_run`, `Desk.steady_of_fits`
-/

namespace OrderWatch

open Time

------------------------------------------------------------
-- Caches
------------------------------------------------------------

namespace Cache

variable {K V : Type} [Ord K] [Std.TransOrd K]

/-
  The entries of a cache are dated in the order in which they
  lie, so that it finds those that have expired.
-/
structure Punctual (c : Cache K V) (now : Nat) : Prop where
  /- Back from the oldest entry the times go up until now. -/
  times_up :
    (c.times c.age.backward ++ [now]).Pairwise (· ≤ ·)
  /- The number it tells is that of the living entries. -/
  size_eq : c.size now = (c.liveEntries now).length
  /- A purge leaves the living entries, and counts the rest. -/
  purge_eq :
    (c.purge now).1.entries = c.liveEntries now ∧
      (c.purge now).2 + c.size now = c.entries.length

theorem Timely.punctual
    [Std.LawfulEqOrd K]
    {c : Cache K V}
    {now : Nat}
    (hTimely : c.Timely now) :
    c.Punctual now := by
  have hSize := hTimely.size_eq now
  rcases hTimely with ⟨order, age, h, hDated⟩
  have hPurged := h.length_expiredSlots hDated now
  have hSplit :=
    List.length_eq_length_filter_add
      (l := c.entries) (c.isLive now)
  refine ⟨?_, hSize, h.entries_purge hDated now, ?_⟩
  · have hTimes :
        c.times c.age.backward = (c.times age).reverse := by
      rw [h.spells_age.backward_eq]
      unfold times
      rw [List.filterMap_reverse]
    rw [hTimes, ← List.reverse_cons, List.pairwise_reverse]
    exact hDated
  · rw [hSize]
    change (c.expiredSlots now).length + _ = _
    rw [hPurged, hSplit, Nat.add_comm]
    rfl

end Cache

------------------------------------------------------------
-- Deeds
------------------------------------------------------------

namespace Deed

/- How long the clock is moved on by a deed that moves it. -/
def span? : Deed → Option Nat
  | .advance nanos => some nanos
  | .start _ | .receive _ | .stop _ | .fetch _
  | .fetchRetired _ | .purge => none

/- How long it is moved on by some deeds, one by one. -/
def spans (ds : List Deed) : List Nat :=
  ds.filterMap span?

end Deed

namespace Tracker

variable {t : Tracker} {ds : List Deed}

/- Only the deed that moves the clock does so. -/
theorem clock_after
    (t : Tracker)
    (a : Deed) :
    (t.after a).clock = a.span?.elim t.clock t.clock.advance := by
  cases a with
  | start o => exact clock_of_core (t.core_start o)
  | receive u =>
      cases hFound : (t.book.find t.now u.orderId).2 with
      | none => exact clock_of_core (receive_unknown hFound).1
      | some o => exact clock_of_core (receive_known hFound).1
  | stop id => exact clock_of_core (t.core_stop id).1
  | fetch id => exact clock_of_core (t.core_fetch id).1
  | fetchRetired id =>
      exact clock_of_core (t.core_fetchRetired id).1
  | purge => exact clock_of_core t.core_purge.1
  | advance nanos => rfl

theorem clock_afterAll
    (t : Tracker)
    (ds : List Deed) :
    (t.afterAll ds).clock =
      (Deed.spans ds).foldl Clock.advance t.clock := by
  induction ds generalizing t with
  | nil => rfl
  | cons a ds ih =>
      have hClock := t.clock_after a
      change ((t.after a).afterAll ds).clock = _
      unfold Deed.spans at ih ⊢
      rw [ih, hClock, List.filterMap_cons]
      cases a.span? with
      | none => rfl
      | some nanos => rfl

/- The readings that a tracker goes by are those of its clock. -/
theorem onward_iff :
    t.Onward ds ↔
      t.clock.Rising Clock.elapsed (Deed.spans ds) := by
  induction ds generalizing t with
  | nil => exact Iff.rfl
  | cons a ds ih =>
      have hClock := t.clock_after a
      change
        t.clock.elapsed ≤ (t.after a).clock.elapsed ∧ _ ↔ _
      rw [ih, hClock]
      unfold Deed.spans
      rw [List.filterMap_cons]
      cases a.span? with
      | none => exact and_iff_right (Nat.le_refl _)
      | some nanos => exact Iff.rfl

/- The cache finds the retired orders that have expired. -/
def Punctual (t : Tracker) : Prop :=
  t.book.retired.Punctual t.now

/- While the elapsed time does not fall, it finds them. -/
theorem punctual_afterAll
    (policy : TerminalPolicy)
    (capacity ttl : Nat)
    (clock : Clock)
    (hRising : clock.Rising Clock.elapsed (Deed.spans ds)) :
    let t := opening policy capacity ttl clock
    (t.afterAll ds).Punctual := by
  intro t
  have hEmpty :
      (Cache.empty capacity ttl : Cache OrderId Order).Timely
        clock.elapsed :=
    Cache.timely_empty capacity ttl clock.elapsed
  have hOnward : t.Onward ds := onward_iff.mpr hRising
  exact (timely_afterAll hEmpty hOnward).punctual

------------------------------------------------------------
-- Once the clock has gone back
------------------------------------------------------------

/- Nothing but the clock moves while only time passes. -/
theorem afterAll_advance
    (t : Tracker)
    (spans : List Nat) :
    t.afterAll (spans.map .advance) =
      { t with clock := spans.foldl Clock.advance t.clock } := by
  induction spans generalizing t with
  | nil => rfl
  | cons nanos spans ih => exact ih (t.advance nanos)

/-
  One order is retired before a step of the clock and one
  after it, and otherwise time passes.
-/
def across
    (before : List Nat)
    (nanos : Nat)
    (after : List Nat) : List Deed :=
  let a := Order.ofRequest Order.sampleRequest
  before.map .advance ++
    ([.start a, .stop "a", .advance nanos,
        .start { a with id := "b" }, .stop "b"] ++
      after.map .advance)

theorem spans_across
    (before : List Nat)
    (nanos : Nat)
    (after : List Nat) :
    Deed.spans (across before nanos after) =
      before ++ nanos :: after := by
  have hAdvance :
      ∀ spans : List Nat,
        Deed.spans (spans.map .advance) = spans := by
    intro spans
    unfold Deed.spans
    rw [List.filterMap_map]
    exact List.filterMap_some
  unfold across
  simp only
  rw [Deed.spans, List.filterMap_append, List.filterMap_append]
  change
    Deed.spans _ ++ ([nanos] ++ Deed.spans _) = _
  rw [hAdvance, hAdvance]
  rfl

/- The two orders are dated by the clock of their times. -/
theorem times_across
    (clock : Clock)
    (before : List Nat)
    (nanos : Nat)
    (after : List Nat) :
    let c := before.foldl Clock.advance clock
    let t :=
      (opening .once 2 1 clock).afterAll
        (across before nanos after)
    t.book.retired.times t.book.retired.age.backward =
      [c.elapsed, (c.advance nanos).elapsed] := by
  intro c t
  have hBegun :
      (opening .once 2 1 clock).afterAll (before.map .advance) =
        opening .once 2 1 c :=
    afterAll_advance _ before
  let t' := (opening .once 2 1 c).afterAll (across [] nanos [])
  have hBook : t.book = t'.book := by
    change ((opening .once 2 1 clock).afterAll _).book = _
    unfold across
    rw [afterAll_append, hBegun, afterAll_append,
      afterAll_advance]
    rfl
  rw [hBook]
  rfl

theorem not_punctual_across
    {clock : Clock}
    {before : List Nat}
    {nanos : Nat}
    (after : List Nat)
    (hFall :
      let c := before.foldl Clock.advance clock
      ¬ c.elapsed ≤ (c.advance nanos).elapsed) :
    ¬ ((opening .once 2 1 clock).afterAll
        (across before nanos after)).Punctual := by
  intro hPunctual
  have hTimes := hPunctual.times_up
  rw [times_across] at hTimes
  exact hFall ((List.pairwise_cons.mp hTimes).1 _ (by simp))

/-
  From a clock that is moved in certain steps, the elapsed
  time never falls exactly if the steps fit into its count
  together.  This is what the cache relies on: then it finds
  the expired orders after whatever deeds take these steps,
  and otherwise there are deeds after which it does not.  The
  wall time never falls exactly if it never strays from the
  calendar, which means from a date after the start of 1970
  that it ends on a date.
-/
theorem readings_rise_iff
    (start : Int64)
    (spans : List Nat) :
    let clock := Clock.startingAt start
    let nanos := (spans.map Clock.elapsedStep).sum
    let millis := (spans.map Clock.wallStep).sum
    (clock.Rising Clock.elapsed spans ↔ nanos < 2 ^ 64) ∧
      ((∀ policy capacity ttl ds,
          Deed.spans ds = spans →
            ((opening policy capacity ttl clock).afterAll
              ds).Punctual) ↔
        nanos < 2 ^ 64) ∧
      (clock.Rising Clock.now spans ↔
        clock.Along
          (fun c c' => ¬ Clock.Strays c.wall.toInt c'.wall.toInt)
          spans) ∧
      (Moment.hasDate start.toInt = true →
        0 < start.toInt →
          (clock.Rising Clock.now spans ↔
            Moment.hasDate (start.toInt + millis) = true)) := by
  intro clock nanos millis
  have hElapsed :
      clock.Rising Clock.elapsed spans ↔ nanos < 2 ^ 64 := by
    have hStart : clock.elapsed = 0 := rfl
    rw [Clock.rising_elapsed_iff, hStart, Nat.zero_add]
  have hWall : clock.wall = start := rfl
  refine ⟨hElapsed, ⟨?_, ?_⟩, Clock.rising_now_iff, ?_⟩
  · intro hPunctual
    rw [← hElapsed]
    by_contra hFalls
    rcases Clock.exists_of_not_along hFalls with
      ⟨before, step, after, hSpans, hFall⟩
    have hAcross :=
      hPunctual .once 2 1 (across before step after)
        ((spans_across before step after).trans hSpans.symm)
    exact not_punctual_across after hFall hAcross
  · rintro hFits policy capacity ttl ds rfl
    exact
      punctual_afterAll policy capacity ttl clock
        (hElapsed.mpr hFits)
  · rw [← hWall]
    exact Clock.rising_now_iff_hasDate

/-
  Two steps come up to the last nanosecond that is counted,
  with an order retired before each of them.
-/
theorem readings_rise_iff_lastNanosecond :
    let clock := Clock.startingAt 1
    let spans := [1000000, 2 ^ 64 - 1000001]
    let a := Order.ofRequest Order.sampleRequest
    let ds : List Deed :=
      [.start a, .stop "a", .advance 1000000,
        .start { a with id := "b" }, .stop "b",
        .advance (2 ^ 64 - 1000001)]
    let t := (opening .once 2 10 clock).afterAll ds
    clock.Rising Clock.elapsed spans ∧
      clock.Rising Clock.now spans ∧
      t.Punctual ∧
      t.now = 2 ^ 64 - 1 ∧
      t.book.retired.times t.book.retired.age.backward =
        [0, 1000000] := by
  intro clock spans a ds t
  have hRise := readings_rise_iff 1 spans
  refine ⟨hRise.1.mpr (by decide), ?_, ?_, by decide, ?_⟩
  · exact (hRise.2.2.2 (by decide) (by decide)).mpr (by decide)
  · exact hRise.2.1.mpr (by decide) .once 2 10 ds rfl
  · decide +kernel

/-
  One nanosecond more than the most that is counted sets the
  elapsed time back to zero, and the longest step from the
  last millisecond wraps the wall time around, from the start
  of 1970 to a moment before it.  Of two orders, retired
  before and after that nanosecond, the second expires behind
  the first: two are told to live, and a purge finds nothing.
-/
theorem not_rising_overflow :
    let a := Order.ofRequest Order.sampleRequest
    let ds : List Deed :=
      [.advance (2 ^ 64 - 1), .start a, .stop "a", .advance 1,
        .start { a with id := "b" }, .stop "b", .advance 10]
    let t :=
      (opening .once 2 10 (Clock.startingAt 0)).afterAll ds
    ¬ (Clock.startingAt 0).Rising Clock.elapsed
        [2 ^ 64 - 1, 1] ∧
      ¬ (Clock.startingAt 9223372036854775807).Rising Clock.now
        [2 ^ 63 * 1000000] ∧
      t.book.retired.size t.now = 2 ∧
      (t.book.retired.liveEntries t.now).length = 1 ∧
      t.purge.2 = 0 := by
  decide +kernel

end Tracker

------------------------------------------------------------
-- Runs
------------------------------------------------------------

namespace Desk

variable {L μ : Type} {hear : Hearing L μ}
variable {deeds : L → Event → Desk L μ → List Deed}

/-
  In a run as well, whose listeners may call back, the cache
  finds what has expired as long as the time adds up.
-/
theorem punctual_run
    (hDoes : hear.Does deeds)
    (policy : TerminalPolicy)
    (capacity ttl : Nat)
    (clock : Clock)
    (sink : Sink L)
    (memory : μ)
    {as : List Action} :
    let d : Desk L μ :=
      opening policy capacity ttl clock sink memory
    let spans := Deed.spans (d.deedsAlong hear deeds as)
    clock.elapsed + (spans.map Clock.elapsedStep).sum < 2 ^ 64 →
      (d.run hear as).1.tracker.Punctual := by
  intro d spans hFits
  have hCore := core_run hDoes d as
  have hPunctual :=
    Tracker.punctual_afterAll policy capacity ttl clock
      (Clock.rising_elapsed_iff.mpr hFits)
  unfold Tracker.Punctual
  rw [Tracker.book_of_core hCore, Tracker.now_of_core hCore]
  exact hPunctual

/- Nor does the clock go back between the actions of a run. -/
theorem steady_of_fits
    (hDoes : hear.Does deeds)
    {d : Desk L μ}
    {as : List Action}
    (hFits :
      let spans := Deed.spans (d.deedsAlong hear deeds as)
      d.tracker.clock.elapsed +
          (spans.map Clock.elapsedStep).sum <
        2 ^ 64) :
    Steady hear d as := by
  induction as generalizing d with
  | nil => trivial
  | cons a as ih =>
      simp only [deedsAlong, Deed.spans, List.filterMap_append,
        List.map_append, List.sum_append] at hFits
      let spans := Deed.spans (d.deedsIn hear deeds a)
      have hCore :=
        decided_perform Tracker.decided_core hDoes d a
      have hNow :
          (d.perform hear a).1.tracker.now =
            d.tracker.clock.elapsed +
              (spans.map Clock.elapsedStep).sum := by
        rw [Tracker.now_of_core hCore, Tracker.clock_afterAll,
          Clock.elapsed_foldl]
        exact
          Nat.lt_of_le_of_lt
            (Nat.add_le_add_left (Nat.le_add_right _ _) _) hFits
      have hLater :
          d.tracker.now ≤ (d.perform hear a).1.tracker.now := by
        rw [hNow]
        exact Nat.le_add_right _ _
      refine ⟨hLater, ih ?_⟩
      change (d.perform hear a).1.tracker.now + _ < _
      rw [hNow, Nat.add_assoc]
      exact hFits

end Desk

end OrderWatch
