import OrderWatch.Proofs.Desk.Callbacks
import OrderWatch.Proofs.Desk.Readback
import OrderWatch.Proofs.Order.Telling

/-
  Under which names records lie.

  A book keeps records in a map, and in slots that an index
  leads to.  Three names must agree for a retired record: the
  one it is indexed by, the one its slot has, and its own.
  They do, whatever is done: slots are used again, records
  are written in their places, and orders with a past of
  their own are taken up.  So the test of a record that an
  update is meant for it never fails in a tracker, and what
  is told for an update is told of its order.

  Main declarations:
    * `Order.apply_mismatched_iff`
    * `Order.orderId_of_respond`
    * `Book.Filed`, `Book.All.filed`
    * `Desk.Named`, `Desk.named_of_reached`
    * `Desk.named_along`
-/

namespace OrderWatch

------------------------------------------------------------
-- Records
------------------------------------------------------------

namespace Order

variable {o p : Order} {u : Update} {time : Time.Moment}
variable {policy : TerminalPolicy}

/- The updates that are refused for their address. -/
theorem StatusStep.mismatched_iff
    {s : StatusUpdate}
    {outcome : Outcome}
    (hStep : o.StatusStep s p outcome) :
    outcome = .rejected .mismatchedOrder ↔ s.orderId ≠ o.id := by
  cases hStep with
  | mismatched hOther => simp [hOther]
  | stale last hId hStale => simp [hId]
  | unchanged hId hFresh hSame => simp [hId]
  | moved hId hFresh hOther hMove => simp [hId]
  | refused hId hFresh hOther hMove => simp [hId]

theorem FillStep.mismatched_iff
    {f : Fill}
    {outcome : Except Overflow Outcome}
    (hStep : o.FillStep f p outcome) :
    outcome = .ok (.rejected .mismatchedOrder) ↔
      f.orderId ≠ o.id := by
  cases hStep with
  | mismatched hOther => simp [hOther]
  | stale last hId hStale => simp [hId]
  | empty hId hFresh hEmpty => simp [hId]
  | duplicate hId hFresh hPositive hUsed => simp [hId]
  | brokenBase hAccepts hBase => simp [hAccepts.addressed]
  | brokenQuote base hAccepts hBase hQuote =>
      simp [hAccepts.addressed]
  | brokenFee base quote hAccepts hBase hQuote hFee hTotal =>
      simp [hAccepts.addressed]
  | free base quote hAccepts hBase hQuote hFee =>
      simp [hAccepts.addressed]
  | charged base quote total hAccepts hBase hQuote hFee hTotal =>
      simp [hAccepts.addressed]

theorem apply_mismatched_iff
    (o : Order)
    (u : Update) :
    (o.apply u).2 = .ok (.rejected .mismatchedOrder) ↔
      u.orderId ≠ o.id := by
  cases u with
  | status s =>
      have hOutcome := (o.applyStatus_step s).mismatched_iff
      exact Iff.trans ⟨Except.ok.inj, congrArg Except.ok⟩ hOutcome
  | fill f => exact (o.applyFill_step f).mismatched_iff

/- A record does not refuse its own updates so. -/
theorem respond_addressed
    (hId : u.orderId = o.id)
    (time : Time.Moment)
    (policy : TerminalPolicy)
    (id : OrderId)
    (channel : Channel) :
    (o.respond u time policy).2.verdict ≠
      .ignored (.rejectedUpdate id channel .mismatchedOrder) := by
  intro hVerdict
  have hOther : (o.apply u).2 ≠ .ok (.rejected .mismatchedOrder) :=
    fun hRefused => (o.apply_mismatched_iff u).mp hRefused hId
  unfold respond settle at hVerdict
  split at hVerdict
  · contradiction
  · contradiction
  · have hWhy := Verdict.ignored.inj hVerdict
    contradiction
  · rename_i reason hRejected
    have hWhy := Verdict.ignored.inj hVerdict
    cases reason with
    | mismatchedOrder => exact hOther hRejected
    | _ => simp [Dismissal.ofRefusal] at hWhy
  · split at hVerdict
    · contradiction
    · contradiction

/- What a record tells is told of itself. -/
theorem orderId_of_respond
    {e : Event}
    (hMem : e ∈ (o.respond u time policy).2.verdict.events) :
    e.orderId = o.id := by
  cases hVerdict : (o.respond u time policy).2.verdict with
  | applied events =>
      rw [hVerdict] at hMem
      have hEvents := (applied_of_respond hVerdict).2
      have hOwn : e.orderId = (o.apply u).1.id := by
        cases callsFor_of_mem hEvents hMem with
        | created hTopic hSigns hMoved => exact hSigns.own
        | filled hTopic hSigns => exact hSigns.own
        | closing hTerminal hTopic hSigns => exact hSigns.own
      exact hOwn.trans (o.apply_sameTerms u).id_eq
  | _ =>
      rw [hVerdict] at hMem
      contradiction

end Order

------------------------------------------------------------
-- Books
------------------------------------------------------------

namespace Book

/-
  All records lie under their own names, the active ones and
  the retired ones, expired or not.
-/
structure Filed (b : Book) : Prop where
  active : ∀ id (o : Order), b.active[id]? = some o → o.id = id
  /- The index leads to slots that are occupied. -/
  indexed :
    ∀ id i, b.retired.index[id]? = some i →
      ∃ e, b.retired.entry? i = some e ∧ e.key = id
  /- It leads to all of them, by the name of the record. -/
  occupied :
    ∀ i e, b.retired.entry? i = some e →
      b.retired.index[e.key]? = some i ∧ e.value.id = e.key

theorem All.filed
    {b : Book}
    (hOwn : b.All Order.Own) :
    b.Filed where
  active := fun id o hActive => hOwn.holds id o (.inl hActive)
  indexed := by
    rcases hOwn.whole with ⟨order, age, h⟩
    intro id i hIndex
    exact h.entry?_of_index hIndex
  occupied := by
    rcases hOwn.whole with ⟨order, age, h⟩
    intro i e hEntry
    have hMem : e ∈ b.retired.entries :=
      (h.mem_entries_iff e).mpr ⟨i, hEntry⟩
    refine ⟨?_, hOwn.of_entries hMem⟩
    exact (h.index_iff e.key i).mpr (by rw [hEntry]; rfl)

end Book

------------------------------------------------------------
-- Trackers
------------------------------------------------------------

namespace Tracker

variable {t : Tracker}

/- An update meets no record but that of its order. -/
theorem receive_addressed
    (hOwn : t.book.All Order.Own)
    (u : Update) :
    (∀ id channel,
      (t.receive u).2.verdict ≠
        .ignored
          (.rejectedUpdate id channel .mismatchedOrder)) ∧
    ∀ e ∈ (t.receive u).2.verdict.events,
      e.orderId = u.orderId := by
  cases hFound : (t.book.find t.now u.orderId).2 with
  | none =>
      rw [(receive_unknown hFound).2]
      refine ⟨?_, ?_⟩
      · intro id channel hVerdict
        have hWhy := Verdict.ignored.inj hVerdict
        contradiction
      · intro e hMem
        contradiction
  | some o =>
      have hId : o.id = u.orderId := hOwn.of_find hFound
      rw [(receive_known hFound).2]
      refine ⟨Order.respond_addressed hId.symm _ _, ?_⟩
      intro e hMem
      exact (Order.orderId_of_respond hMem).trans hId

end Tracker

------------------------------------------------------------
-- Desks
------------------------------------------------------------

namespace Desk

variable {L μ : Type} {hear : Hearing L μ} {d : Desk L μ}
variable {deeds : L → Event → Desk L μ → List Deed}

/-
  A desk with all records under their names.  Whatever update
  comes next is not refused as one of another order, and all
  that is told for it, in each round of the bus or on record,
  is told of its order.
-/
structure Named
    (hear : Hearing L μ)
    (d : Desk L μ) : Prop where
  filed : d.tracker.book.Filed
  addressed :
    ∀ u id channel,
      (d.process hear u).2 ≠
        .ignored (.rejectedUpdate id channel .mismatchedOrder)
  signed :
    ∀ u, ∀ e ∈ (d.process hear u).2.events,
      e.orderId = u.orderId
  told : ∀ u, ∀ r ∈ d.rounds hear u, r.event.orderId = u.orderId
  kept :
    ∀ u told, d.sink = .recording told →
      ∃ events,
        (d.process hear u).1.sink = .recording (told ++ events) ∧
        ∀ e ∈ events, e.orderId = u.orderId

/- The sink after an update is the one its events leave. -/
theorem sink_process
    (hear : Hearing L μ)
    (d : Desk L μ)
    (u : Update) :
    (d.process hear u).1.sink = (d.heard hear u).sink := by
  rw [process_eq]
  split <;> rfl

theorem named_of_own
    (hear : Hearing L μ)
    (hOwn : d.tracker.book.All Order.Own) :
    d.Named hear where
  filed := hOwn.filed
  addressed := by
    intro u
    rw [verdict_process]
    exact (Tracker.receive_addressed hOwn u).1
  signed := by
    intro u
    rw [verdict_process]
    exact (Tracker.receive_addressed hOwn u).2
  told := by
    intro u r hRound
    have hMem : r.event ∈ (d.rounds hear u).map Round.event :=
      List.mem_map_of_mem hRound
    unfold rounds at hMem
    rw [events_roundsOf] at hMem
    exact (Tracker.receive_addressed hOwn u).2 r.event hMem
  kept := by
    intro u told hSink
    refine
      ⟨(d.tracker.receive u).2.verdict.events, ?_,
        (Tracker.receive_addressed hOwn u).2⟩
    rw [sink_process]
    have hReceived : (d.received u).sink = .recording told := hSink
    exact sink_publishAll hear hReceived _

/-
  Records lie under their names after a run and at all points
  of it, in the middle of updates included, whatever records
  are started and whatever the listeners do.  So no update is
  ever refused as one of another order, and what is told for
  an update is told of its order.
-/
theorem named_along
    (hDoes : hear.Does deeds)
    (policy : TerminalPolicy)
    (capacity ttl : Nat)
    (clock : Time.Clock)
    (sink : Sink L)
    (memory : μ)
    (as : List Action) :
    let opened := opening policy capacity ttl clock sink memory
    (opened.run hear as).1.Named hear ∧
    ∀ before after,
      opened.deedsAlong hear deeds as = before ++ after →
      ∀ d : Desk L μ,
        d.tracker.core = (opened.tracker.afterAll before).core →
          d.Named hear := by
  intro opened
  refine ⟨?_, ?_⟩
  · have hReached :=
      reached_run hDoes policy capacity ttl clock sink memory as
    exact named_of_own hear hReached.own
  · intro before after hSplit d hCore
    have hReached : d.tracker.Reached :=
      ⟨policy, capacity, ttl, clock, before, hCore⟩
    exact named_of_own hear hReached.own

/-
  A cache for one order, through which three have gone, and a
  listener that sends in half a fill for the last one when it
  hears of the others.  In the end the last order lies in the
  slot of the first one, and has expired there.
-/
theorem named_along_reused :
    let plan : Unit → Event → Plan Unit Unit := fun _ e =>
      if e.orderId = "c" then
        .finish .done
      else
        .errand
          (.act (.update (.fill { halfFill with orderId := "c" })))
          fun _ => .finish .done
    let hear := Hearing.planned plan 2
    let bus := (Bus.subscribeAll ∅ (.other "b" ())).1
    let opened : Desk Unit Unit :=
      opening .once 1 10 default (.bus bus) ()
    let amount := (Decimal.ofInt? 1).getD .zero
    let start (id : OrderId) : Action :=
      .start (.ofRequest { Order.sampleRequest with id, amount })
    let cancel (orderId : OrderId) : Action :=
      .update
        (.status
          { (default : StatusUpdate) with
            orderId, status := .cancelled })
    let d :=
      (opened.run hear
        [start "a", start "b", start "c",
          cancel "a", cancel "b", cancel "c", .advance 10]).1
    d.Named hear ∧
      (d.tracker.book.retired.entry? 0).map
          (fun e =>
            (e.key, e.value.id, e.value.executedBase.isPositive)) =
        some ("c", "c", true) ∧
      d.tracker.book.retired.isExpired d.tracker.now 0 = true := by
  intro plan hear bus opened amount start cancel d
  rcases planned_doesSeen Tracker.decided_core plan 2 with
    ⟨deeds, hDoes⟩
  refine ⟨?_, by decide +kernel, by decide +kernel⟩
  exact
    (named_along hDoes .once 1 10 default (.bus bus) () _).1

end Desk

end OrderWatch
