import OrderWatch.Proofs.Order.Life
import OrderWatch.Tracker

/-
  How a record responds to an update.

  The response of a record is the record after the update and
  what is answered; the tracker adds nothing to it but the
  look-up and the write.  A record is settled if its terminal
  event is marked as published exactly when it is done.  Under
  the policy `once`, a settled record publishes a terminal
  event exactly when the update has closed it, and last.

  Main declarations:
    * `Verdict.events`
    * `Order.closingTopic?`
    * `Order.eventsSince_split`
    * `Order.respond`
    * `Order.Settled`
    * `Order.Settled.respond`
    * `Order.Settled.closing`
-/

namespace OrderWatch

/- The events that an update has published. -/
def Verdict.events : Verdict → List Event
  | .applied events => events
  | .unchanged | .ignored _ | .broken _ => []

namespace Order

variable {o p : Order} {time : Time.Moment}

------------------------------------------------------------
-- Events
------------------------------------------------------------

/- The topic of the terminal event of a record. -/
def closingTopic? (o : Order) : Option Topic :=
  match o.status with
  | .filled => some (.completed o.side)
  | .cancelled => some .cancelled
  | .failed => some .failed
  | .pendingCreate | .open | .partiallyFilled => none

theorem topic_terminalEvent?
    (o : Order)
    (time : Time.Moment) :
    (o.terminalEvent? time).map Event.topic =
      o.closingTopic? := by
  unfold terminalEvent? closingTopic?
  cases o.status <;> rfl

theorem isTerminal_terminalEvent?
    {e : Event}
    (hEvent : o.terminalEvent? time = some e) :
    e.isTerminal = true := by
  have hTopic := o.topic_terminalEvent? time
  rw [hEvent] at hTopic
  unfold closingTopic? at hTopic
  unfold Event.isTerminal
  cases hStatus : o.status <;>
    simp_all [Topic.isTerminal]

theorem orderId_terminalEvent?
    {e : Event}
    (hEvent : o.terminalEvent? time = some e) :
    e.orderId = o.id := by
  unfold terminalEvent? at hEvent
  split at hEvent <;> simp_all [Event.orderId]
  all_goals rw [← hEvent]

/-
  The events of an update: some that are not terminal, and
  then the terminal one if the policy calls for it.
-/
theorem eventsSince_split
    (hBefore : p.executedBase.negative = false)
    (hAfter : o.executedBase.negative = false)
    (channel : Channel)
    (time : Time.Moment) :
    ∃ news,
      (∀ policy,
        o.eventsSince p.snapshot channel time policy =
          .ok (news ++
            (o.terminalUnder? policy time).toList)) ∧
      ∀ e ∈ news, e.isTerminal = false ∧ e.orderId = o.id := by
  rcases Option.isSome_iff_exists.mp
      (Decimal.sub_fits hAfter hBefore) with ⟨delta, hDelta⟩
  have hFill :
      o.fillSince p.snapshot time =
        .ok (if delta.isPositive then
          some (o.fillEvent delta time)
        else
          none) := by
    unfold fillSince snapshot
    simp only [hDelta]
  refine
    ⟨(o.creationSince p.snapshot channel time).toList ++
      (if delta.isPositive then
          some (o.fillEvent delta time)
        else
          none).toList, ?_, ?_⟩
  · intro policy
    unfold eventsSince
    rw [hFill]
    rfl
  · intro e hMem
    rcases List.mem_append.mp hMem with hCreated | hFilled
    · unfold creationSince at hCreated
      split at hCreated
      · rw [List.mem_singleton.mp hCreated]
        exact ⟨rfl, rfl⟩
      · contradiction
    · split at hFilled
      · rw [List.mem_singleton.mp hFilled]
        exact ⟨rfl, rfl⟩
      · contradiction

------------------------------------------------------------
-- Responses
------------------------------------------------------------

/-
  The record that an update has left, and what is answered
  for it.  The record is marked if its terminal event is
  among those published.
-/
def settle
    (p : Order)
    (before : Snapshot)
    (u : Update)
    (time : Time.Moment)
    (policy : TerminalPolicy) :
    Except Overflow Outcome → Order × Tracker.Receipt
  | .error why => (p, .closed (.broken why))
  | .ok .unchanged => (p, .closed .unchanged)
  | .ok (.stale last) =>
      (p, .closed (.ignored
        (.staleUpdate p.id u.channel u.sequence last)))
  | .ok (.rejected reason) =>
      (p, .closed (.ignored (.ofRefusal p.id u.channel reason)))
  | .ok .applied =>
      match p.eventsSince before u.channel time policy with
      | .error why => (p, .closed (.broken why))
      | .ok events =>
          (if events.any Event.isTerminal then p.announce else p,
            ⟨.applied events, p.isDone⟩)

/- The record after an update, and what is answered. -/
def respond
    (o : Order)
    (u : Update)
    (time : Time.Moment)
    (policy : TerminalPolicy) : Order × Tracker.Receipt :=
  (o.apply u).1.settle o.snapshot u time policy (o.apply u).2

/- A record is marked or left as the update has left it. -/
theorem settle_record
    (p : Order)
    (before : Snapshot)
    (u : Update)
    (time : Time.Moment)
    (policy : TerminalPolicy)
    (outcome : Except Overflow Outcome) :
    (p.settle before u time policy outcome).1 = p ∨
      (p.settle before u time policy outcome).1 =
        p.announce := by
  unfold settle
  split
  · exact .inl rfl
  · exact .inl rfl
  · exact .inl rfl
  · exact .inl rfl
  · split
    · exact .inl rfl
    · split
      · exact .inr rfl
      · exact .inl rfl

theorem respond_record
    (o : Order)
    (u : Update)
    (time : Time.Moment)
    (policy : TerminalPolicy) :
    (o.respond u time policy).1 = (o.apply u).1 ∨
      (o.respond u time policy).1 = (o.apply u).1.announce :=
  settle_record _ _ u time policy _

/- Only an applied update may retire its order. -/
theorem respond_receipt
    (o : Order)
    (u : Update)
    (time : Time.Moment)
    (policy : TerminalPolicy) :
    (∃ events,
        (o.respond u time policy).2.verdict = .applied events) ∨
      (o.respond u time policy).2 =
        .closed (o.respond u time policy).2.verdict := by
  unfold respond settle
  split
  · exact .inr rfl
  · exact .inr rfl
  · exact .inr rfl
  · exact .inr rfl
  · split
    · exact .inr rfl
    · rename_i events _
      exact .inl ⟨events, rfl⟩

theorem id_respond
    (o : Order)
    (u : Update)
    (time : Time.Moment)
    (policy : TerminalPolicy) :
    (o.respond u time policy).1.id = o.id := by
  have hId := (o.apply_sameTerms u).id_eq
  rcases o.respond_record u time policy with hSame | hMarked
  · rw [hSame, hId]
  · rw [hMarked]
    exact hId

theorem status_respond
    (o : Order)
    (u : Update)
    (time : Time.Moment)
    (policy : TerminalPolicy) :
    (o.respond u time policy).1.status =
      (o.apply u).1.status := by
  rcases o.respond_record u time policy with hSame | hMarked
  · rw [hSame]
  · rw [hMarked]
    rfl

theorem isDone_respond
    (o : Order)
    (u : Update)
    (time : Time.Moment)
    (policy : TerminalPolicy) :
    (o.respond u time policy).1.isDone =
      (o.apply u).1.isDone := by
  unfold isDone
  rw [o.status_respond]

/- An update that is not applied publishes nothing. -/
theorem respond_of_ne_applied
    {u : Update}
    (hOther : (o.apply u).2 ≠ .ok .applied)
    (time : Time.Moment)
    (policy : TerminalPolicy) :
    (o.respond u time policy).1 = (o.apply u).1 ∧
      (o.respond u time policy).2.verdict.events = [] ∧
      (o.respond u time policy).2.retire = false := by
  unfold respond settle
  split
  · exact ⟨rfl, rfl, rfl⟩
  · exact ⟨rfl, rfl, rfl⟩
  · exact ⟨rfl, rfl, rfl⟩
  · exact ⟨rfl, rfl, rfl⟩
  · rename_i hApplied
    exact absurd hApplied hOther

/- An applied update publishes its events. -/
theorem respond_of_applied
    {u : Update}
    (hApplied : (o.apply u).2 = .ok .applied)
    {policy : TerminalPolicy}
    {events : List Event}
    (hEvents :
      (o.apply u).1.eventsSince o.snapshot u.channel time
        policy = .ok events) :
    o.respond u time policy =
      (if events.any Event.isTerminal then
          (o.apply u).1.announce
        else
          (o.apply u).1,
        ⟨.applied events, (o.apply u).1.isDone⟩) := by
  unfold respond settle
  simp only [hApplied, hEvents]

/- An update that is answered as applied has been applied. -/
theorem applied_of_respond
    {u : Update}
    {policy : TerminalPolicy}
    {events : List Event}
    (hVerdict :
      (o.respond u time policy).2.verdict = .applied events) :
    (o.apply u).2 = .ok .applied ∧
      (o.apply u).1.eventsSince o.snapshot u.channel time
        policy = .ok events := by
  unfold respond settle at hVerdict
  split at hVerdict
  · contradiction
  · contradiction
  · contradiction
  · contradiction
  · rename_i hApplied
    split at hVerdict
    · contradiction
    · rename_i hEvents
      rw [hEvents]
      exact
        ⟨hApplied,
          congrArg Except.ok (Verdict.applied.inj hVerdict)⟩

/- Any other update that is not broken off is refused. -/
theorem refused_of_respond
    {u : Update}
    {policy : TerminalPolicy}
    (hOther :
      ∀ events,
        (o.respond u time policy).2.verdict ≠ .applied events)
    (hWhole :
      ∀ why, (o.respond u time policy).2.verdict ≠ .broken why) :
    ∃ outcome, (o.apply u).2 = .ok outcome ∧
      outcome ≠ .applied := by
  cases hOutcome : (o.apply u).2 with
  | error why =>
      refine absurd ?_ (hWhole why)
      unfold respond settle
      simp only [hOutcome]
      rfl
  | ok outcome =>
      refine ⟨outcome, rfl, ?_⟩
      rintro rfl
      cases hEvents :
          (o.apply u).1.eventsSince o.snapshot u.channel time
            policy with
      | error why =>
          refine absurd ?_ (hWhole why)
          unfold respond settle
          simp only [hOutcome, hEvents]
          rfl
      | ok events =>
          refine absurd ?_ (hOther events)
          rw [respond_of_applied hOutcome hEvents]

theorem executedBase_respond
    (o : Order)
    (u : Update)
    (time : Time.Moment)
    (policy : TerminalPolicy) :
    (o.respond u time policy).1.executedBase =
      (o.apply u).1.executedBase := by
  rcases o.respond_record u time policy with hSame | hMarked
  · rw [hSame]
  · rw [hMarked]
    rfl

/-
  An order is to be retired if the update has been applied
  and answered, and has left it done.
-/
theorem retire_respond_iff
    (o : Order)
    (u : Update)
    (time : Time.Moment)
    (policy : TerminalPolicy) :
    (o.respond u time policy).2.retire = true ↔
      (∃ events,
        (o.respond u time policy).2.verdict =
          .applied events) ∧
      (o.apply u).1.isDone = true := by
  unfold respond settle
  split
  · simp [Tracker.Receipt.closed]
  · simp [Tracker.Receipt.closed]
  · simp [Tracker.Receipt.closed]
  · simp [Tracker.Receipt.closed]
  · split
    · simp [Tracker.Receipt.closed]
    · simp

------------------------------------------------------------
-- Settled records
------------------------------------------------------------

/-
  The terminal event of a record has been published exactly
  if the record is done; its base total has no minus sign.
-/
structure Settled (o : Order) : Prop where
  announced_eq : o.announced = o.isDone
  unsigned : o.executedBase.negative = false

theorem settled_ofRequest
    (r : OrderRequest) :
    (ofRequest r).Settled :=
  ⟨rfl, rfl⟩

namespace Settled

/- The record after an update, before it may be marked. -/
theorem announced_apply
    (hSettled : o.Settled)
    (u : Update) :
    (o.apply u).1.announced = o.isDone := by
  rw [(o.apply_sameTerms u).announced_eq,
    hSettled.announced_eq]

/- Where no event is due, the record has not been closed. -/
theorem isDone_apply
    (hSettled : o.Settled)
    {u : Update}
    {policy : TerminalPolicy}
    (hNone : (o.apply u).1.terminalUnder? policy time = none) :
    (o.apply u).1.isDone = o.isDone := by
  unfold terminalUnder? at hNone
  rw [hSettled.announced_apply] at hNone
  cases hDone : o.isDone with
  | true =>
      unfold isDone at hDone ⊢
      rw [status_apply_of_isDone hDone, hDone]
  | false =>
      rw [hDone, Bool.false_and, if_neg (by decide)] at hNone
      have hSome := isSome_terminalEvent? (o.apply u).1 time
      rw [← hSome, hNone]
      rfl

/- A settled record stays settled. -/
theorem respond
    (hSettled : o.Settled)
    (u : Update)
    (time : Time.Moment)
    (policy : TerminalPolicy) :
    (o.respond u time policy).1.Settled := by
  have hUnsigned := apply_unsigned hSettled.unsigned u
  have hAnnounced := hSettled.announced_apply u
  by_cases hApplied : (o.apply u).2 = .ok .applied
  · rcases eventsSince_split hSettled.unsigned hUnsigned
        u.channel time with ⟨news, hEvents, hNews⟩
    rw [respond_of_applied hApplied (hEvents policy)]
    cases hLast :
        (o.apply u).1.terminalUnder? policy time with
    | none =>
        have hQuiet :
            (news ++ (none : Option Event).toList).any
              Event.isTerminal = false := by
          rw [Option.toList_none, List.append_nil,
            List.any_eq_false]
          intro e hMem
          simp [(hNews e hMem).1]
        rw [hQuiet]
        refine ⟨?_, hUnsigned⟩
        rw [if_neg (by decide), hAnnounced,
          hSettled.isDone_apply hLast]
    | some e =>
        have hEvent :
            (o.apply u).1.terminalEvent? time = some e := by
          unfold terminalUnder? at hLast
          split at hLast
          · contradiction
          · exact hLast
        have hTerminal := isTerminal_terminalEvent? hEvent
        have hLoud :
            (news ++ (some e).toList).any Event.isTerminal =
              true := by
          simp [hTerminal]
        have hDone : (o.apply u).1.isDone = true := by
          rw [← isSome_terminalEvent? _ time, hEvent]
          rfl
        rw [hLoud, if_pos rfl]
        exact ⟨hDone.symm, hUnsigned⟩
  · have hStatus := status_apply_of_ne_applied hApplied
    rw [(respond_of_ne_applied hApplied time policy).1]
    refine ⟨?_, hUnsigned⟩
    unfold isDone
    rw [hAnnounced, hStatus]
    rfl

/-
  Under the policy `once` the last event is terminal exactly
  if the update has closed the record; no other one is.
-/
theorem closing
    (hSettled : o.Settled)
    (u : Update)
    (time : Time.Moment) :
    ∃ news,
      (∀ e ∈ news, e.isTerminal = false ∧ e.orderId = o.id) ∧
      if o.isDone = false ∧ (o.apply u).1.isDone = true then
        ∃ e,
          (o.respond u time .once).2.verdict.events =
            news ++ [e] ∧
          e.isTerminal = true ∧ e.orderId = o.id ∧
          some e.topic = (o.apply u).1.closingTopic?
      else
        (o.respond u time .once).2.verdict.events = news := by
  have hUnsigned := apply_unsigned hSettled.unsigned u
  have hAnnounced := hSettled.announced_apply u
  have hId := (o.apply_sameTerms u).id_eq
  by_cases hApplied : (o.apply u).2 = .ok .applied
  · rcases eventsSince_split hSettled.unsigned hUnsigned
        u.channel time with ⟨news, hEvents, hNews⟩
    rw [hId] at hNews
    refine ⟨news, hNews, ?_⟩
    rw [respond_of_applied hApplied (hEvents .once)]
    simp only [Verdict.events]
    cases hLast : (o.apply u).1.terminalUnder? .once time with
    | none =>
        have hSame := hSettled.isDone_apply hLast
        rw [if_neg (by rw [hSame]; simp), Option.toList_none,
          List.append_nil]
    | some e =>
        unfold terminalUnder? at hLast
        split at hLast
        · contradiction
        · rename_i hOpen
          have hOpen : o.isDone = false := by
            rw [hAnnounced] at hOpen
            simpa using hOpen
          have hDone : (o.apply u).1.isDone = true := by
            rw [← isSome_terminalEvent? _ time, hLast]
            rfl
          have hTopic := (o.apply u).1.topic_terminalEvent? time
          rw [hLast] at hTopic
          rw [if_pos ⟨hOpen, hDone⟩]
          exact
            ⟨e, rfl, isTerminal_terminalEvent? hLast,
              (orderId_terminalEvent? hLast).trans hId, hTopic⟩
  · have hStatus := status_apply_of_ne_applied hApplied
    have hStill : (o.apply u).1.isDone = o.isDone := by
      unfold isDone
      rw [hStatus]
    refine ⟨[], by simp, ?_⟩
    rw [if_neg (by rw [hStill]; simp)]
    exact (respond_of_ne_applied hApplied time .once).2.1

end Settled

end Order

end OrderWatch
