import OrderWatch.Proofs.Book.Frame
import OrderWatch.Proofs.Desk.Deeds
import OrderWatch.Proofs.Desk.Delivery
import OrderWatch.Proofs.Desk.Redelivery
import OrderWatch.Proofs.Desk.Simulation

/-
  What an update leaves as it is.

  Under quiet listeners an update changes the record that it
  is for, and retires its order at most.  All other records
  stay, but for those that a retirement pushes out of a full
  cache.  An update that is not applied is not told, retires
  nothing, and changes its own record in no more than what
  says that the update has been seen.

  Main declarations:
    * `Order.noting`, `Verdict.Leaves`
    * `Order.respond_leaves`
    * `Desk.process_unapplied`
    * `Desk.frame_process`
    * `Desk.update_frame`
-/

namespace OrderWatch

------------------------------------------------------------
-- Records
------------------------------------------------------------

/- A record that has taken note of an update, and no more. -/
def Order.noting (o : Order) : Update → Order
  | .status u => o.heard u
  | .fill f => { o with tradeSequence := some f.sequence }

namespace Order

variable {o p : Order} {u : Update}

/- What an update that is not applied changes of a record. -/
def TakesNote
    (o : Order)
    (u : Update)
    (p : Order) : Except Overflow Outcome → Prop
  | .ok (.stale _) => p = o
  | .ok .unchanged | .ok (.rejected _) => p = o.noting u
  | .ok .applied | .error _ => True

theorem StatusStep.takesNote
    {u : StatusUpdate}
    {outcome : Outcome}
    (hStep : o.StatusStep u p outcome)
    (hId : u.orderId = o.id) :
    o.TakesNote (.status u) p (.ok outcome) := by
  cases hStep with
  | mismatched hOther => exact absurd hId hOther
  | moved => trivial
  | _ => rfl

theorem FillStep.takesNote
    {f : Fill}
    {outcome : Except Overflow Outcome}
    (hStep : o.FillStep f p outcome)
    (hId : f.orderId = o.id) :
    o.TakesNote (.fill f) p outcome := by
  cases hStep with
  | mismatched hOther => exact absurd hId hOther
  | stale | empty | duplicate => rfl
  | _ => trivial

theorem apply_takesNote
    (hId : u.orderId = o.id) :
    o.TakesNote u (o.apply u).1 (o.apply u).2 := by
  cases u with
  | status u => exact (o.applyStatus_step u).takesNote hId
  | fill f => exact (o.applyFill_step f).takesNote hId

end Order

/- What becomes of the record that is found for an update. -/
def Verdict.Leaves
    (u : Update)
    (found left : Option Order) : Verdict → Prop
  | .applied _ | .broken _ => True
  | .ignored (.unknownOrder _) => found = none ∧ left = none
  | .ignored (.staleUpdate _ _ _ _) =>
      ∃ o, found = some o ∧ left = some o
  | .unchanged
  | .ignored (.invalidTransition _ _ _)
  | .ignored (.rejectedUpdate _ _ _) =>
      ∃ o, found = some o ∧ left = some (o.noting u)

theorem Order.respond_leaves
    {o : Order}
    {u : Update}
    (hId : u.orderId = o.id)
    (time : Time.Moment)
    (policy : TerminalPolicy) :
    (o.respond u time policy).2.verdict.Leaves u (some o)
      (some (o.respond u time policy).1) := by
  have hNoted := apply_takesNote hId
  unfold respond
  generalize (o.apply u).1 = p at hNoted ⊢
  generalize (o.apply u).2 = outcome at hNoted ⊢
  unfold settle
  split
  · trivial
  · exact ⟨o, rfl, congrArg some hNoted⟩
  · exact ⟨o, rfl, congrArg some hNoted⟩
  · rename_i reason
    cases reason <;> exact ⟨o, rfl, congrArg some hNoted⟩
  · split <;> trivial

------------------------------------------------------------
-- Desks
------------------------------------------------------------

namespace Desk

variable {L μ : Type}
variable {hear : Hearing L μ} {d : Desk L μ} {u : Update}

/- An update that is not applied is received, and no more. -/
theorem process_unapplied
    (hear : Hearing L μ)
    (hOther :
      ∀ events, (d.process hear u).2 ≠ .applied events) :
    (d.process hear u).1 = d.received u ∧
      d.calls hear u = [] := by
  rw [verdict_process] at hOther
  rcases d.tracker.receive_receipt u with
    ⟨events, hApplied⟩ | hClosed
  · exact absurd hApplied (hOther events)
  · have hSilent :
        (d.tracker.receive u).2.verdict.events = [] := by
      cases hVerdict : (d.tracker.receive u).2.verdict with
      | applied events => exact absurd hVerdict (hOther events)
      | _ => rfl
    have hStays : (d.tracker.receive u).2.retire = false := by
      rw [hClosed]
      rfl
    rw [process_eq, hStays]
    unfold heard calls
    rw [hSilent]
    exact ⟨rfl, rfl⟩

/- What is under other names stays in its place. -/
theorem frame_process
    (hQuiet : hear.Quiet)
    (hOwn : d.tracker.book.All Order.Own)
    (u : Update) :
    d.tracker.book.Frame (d.process hear u).1.tracker.book
      u.orderId (d.process hear u).1.tracker.now := by
  have hWhole := hOwn.whole
  cases hFound :
      (d.tracker.book.find d.tracker.now u.orderId).2 with
  | none =>
      have hCore := (process_unknown hear hFound).1
      rw [Tracker.book_of_core hCore]
      exact Book.frame_find hWhole _ _ u.orderId
  | some o =>
      have hCore := (process_known hQuiet hFound).2
      have hClock := Tracker.clock_of_core hCore
      have hNow :
          (d.process hear u).1.tracker.now =
            (d.heard hear u).tracker.now :=
        congrArg Time.Clock.elapsed hClock
      have hId :
          (o.respond u d.tracker.clock.now
            d.tracker.policy).1.id = u.orderId :=
        (o.id_respond u _ _).trans (hOwn.of_find hFound)
      rw [Tracker.book_of_core hCore, hNow]
      exact Book.frame_update hWhole hId _ _ _

/- An update that is received changes none of the names. -/
theorem sameNames_received
    (hWhole : d.tracker.book.Whole)
    (u : Update) :
    d.tracker.book.SameNames (d.received u).tracker.book
      d.tracker.now := by
  unfold received
  change
    d.tracker.book.SameNames (d.tracker.receive u).1.book _
  cases hFound :
      (d.tracker.book.find d.tracker.now u.orderId).2 with
  | none =>
      have hCore := (Tracker.receive_unknown hFound).1
      rw [Tracker.book_of_core hCore]
      exact Book.sameNames_find hWhole _ u.orderId
  | some o =>
      have hCore := (Tracker.receive_known hFound).1
      rw [Tracker.book_of_core hCore]
      exact Book.sameNames_write hWhole _ _ u.orderId

theorem summary_received
    (hWhole : d.tracker.book.Whole)
    (hWhole' : (d.received u).tracker.book.Whole) :
    (d.received u).tracker.summary = d.tracker.summary := by
  have hNames := sameNames_received hWhole u
  unfold Tracker.summary
  rw [hNames.activeOrders_eq, now_received,
    hNames.retiredOrders_eq hWhole hWhole', clock_received]

/- The record of an update is found as it has been written. -/
theorem fetch_received
    (hOwn : d.tracker.book.All Order.Own)
    {o : Order}
    (hFound : (d.tracker.fetch u.orderId).2 = some o) :
    ((d.received u).tracker.fetch u.orderId).2 =
      some (o.respond u d.tracker.clock.now
        d.tracker.policy).1 := by
  have hBook :=
    Tracker.book_of_core (Tracker.receive_known hFound).1
  have hId :=
    (o.id_respond u d.tracker.clock.now d.tracker.policy).trans
      (hOwn.of_find hFound)
  change
    ((d.tracker.receive u).1.book.find
      (d.received u).tracker.now u.orderId).2 = _
  rw [hBook, now_received]
  exact Book.find_written hOwn.whole hId hFound

/- Nothing is found where nothing has been found. -/
theorem fetch_received_unknown
    (hWhole : d.tracker.book.Whole)
    (hFound : (d.tracker.fetch u.orderId).2 = none) :
    ((d.received u).tracker.fetch u.orderId).2 = none := by
  have hBook :=
    Tracker.book_of_core (Tracker.receive_unknown hFound).1
  change
    ((d.tracker.receive u).1.book.find
      (d.received u).tracker.now u.orderId).2 = none
  rw [hBook, now_received, Book.find_place,
    Book.place_find hWhole, ← Book.find_place]
  exact hFound

/- What is found for an update, and what is left of it. -/
theorem leaves_received
    (hOwn : d.tracker.book.All Order.Own)
    (u : Update) :
    (d.tracker.receive u).2.verdict.Leaves u
      (d.tracker.fetch u.orderId).2
      ((d.received u).tracker.fetch u.orderId).2 := by
  cases hFound : (d.tracker.fetch u.orderId).2 with
  | none =>
      rw [fetch_received_unknown hOwn.whole hFound,
        (Tracker.receive_unknown hFound).2]
      exact ⟨rfl, rfl⟩
  | some o =>
      have hId : o.id = u.orderId := hOwn.of_find hFound
      rw [fetch_received hOwn hFound,
        (Tracker.receive_known hFound).2]
      exact Order.respond_leaves hId.symm _ _

/-
  An update leaves what is under other names, save that an
  order which it retires may push others out of the cache.
  If it is not applied, no listener is called, the same names
  are active and retired as before, and no more than the
  notes of having seen it are new in its own record.
-/
theorem update_frame
    (hQuiet : hear.Quiet)
    (hReached : d.tracker.Reached)
    (u : Update) :
    let d' := (d.process hear u).1
    let verdict := (d.process hear u).2
    d.tracker.book.Frame d'.tracker.book u.orderId
        d'.tracker.now ∧
      ((∀ events, verdict ≠ .applied events) →
        d' = d.withTracker d'.tracker ∧
        d.calls hear u = [] ∧
        d'.tracker.summary = d.tracker.summary ∧
        verdict.Leaves u (d.tracker.fetch u.orderId).2
          (d'.tracker.fetch u.orderId).2) := by
  intro d' verdict
  have hOwn := hReached.own
  refine ⟨frame_process hQuiet hOwn u, ?_⟩
  intro hOther
  rcases process_unapplied hear hOther with ⟨hSame, hSilent⟩
  have hSame : d' = d.received u := hSame
  have hVerdict : verdict = (d.tracker.receive u).2.verdict :=
    verdict_process hear d u
  have hWhole' : (d.received u).tracker.book.Whole :=
    (lasting_received Book.lasting_own hOwn u).whole
  rw [hSame, hVerdict]
  exact
    ⟨rfl, hSilent, summary_received hOwn.whole hWhole',
      leaves_received hOwn u⟩

/-
  A cancelled order pushes another one out of a cache that
  has room for one.  The same cancellation is stale then.
-/
theorem update_frame_crowded :
    let desk : Desk Unit Unit :=
      opening .once 1 10 default (.recording []) ()
    let crowding :=
      [Action.start (.ofRequest { plainRequest with id := "b" }),
        .start (.ofRequest plainRequest), .stop "b"]
    let d := (desk.run .idle crowding).1
    let d' :=
      (desk.run .idle (crowding ++ [.update cancellation])).1
    let d'' := (d'.process .idle cancellation).1
    d.tracker.summary.retired = ["b"] ∧
      d.tracker.book.Displaced d'.tracker.book "a" "b"
        d'.tracker.now ∧
      d'' = d'.withTracker d''.tracker ∧
      d''.tracker.summary.retired = ["a"] ∧
      ∃ o,
        (d'.tracker.fetch "a").2 = some o ∧
        (d''.tracker.fetch "a").2 = some o := by
  intro desk crowding d d' d''
  have hQuiet : (Hearing.idle : Hearing Unit Unit).Quiet :=
    Hearing.still_idle.quiet
  have hDoes :
      (Hearing.idle : Hearing Unit Unit).Does
        fun _ _ _ => [] :=
    fun _ _ _ => rfl
  have hFirst : d.tracker.Reached :=
    reached_run hDoes .once 1 10 default (.recording []) () _
  have hSecond : d'.tracker.Reached :=
    reached_run hDoes .once 1 10 default (.recording []) () _
  have hFrame : d.tracker.book.Frame _ _ _ :=
    (update_frame hQuiet hFirst cancellation).1
  have hGone :
      (d.tracker.book.retired.found? "b").isSome = true ∧
        d'.tracker.book.retired.found? "b" = none := by
    decide +kernel
  have hDisplaced :
      d.tracker.book.Displaced d'.tracker.book "a" "b"
        d'.tracker.now := by
    rcases hFrame.retired "b" (by decide) with hSame | hPushed
    · have hStays :
          d'.tracker.book.retired.found? "b" =
            d.tracker.book.retired.found? "b" :=
        hSame
      rw [← hStays, hGone.2] at hGone
      exact absurd hGone.1 (by decide)
    · exact hPushed
  have hStale :
      (d'.process .idle cancellation).2 =
        .ignored (.staleUpdate "a" .status 0 0) := by
    decide +kernel
  have hRest :=
    (update_frame hQuiet hSecond cancellation).2
      (by rw [hStale]; simp)
  rw [hStale] at hRest
  rcases hRest with ⟨hSink, _, hSummary, hLeaves⟩
  have hListed : d'.tracker.summary.retired = ["a"] := by
    decide +kernel
  refine
    ⟨by decide +kernel, hDisplaced, hSink, ?_, hLeaves⟩
  rw [← hListed]
  exact congrArg Tracker.Summary.retired hSummary

end Desk

end OrderWatch
