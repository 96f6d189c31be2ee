import OrderWatch.Proofs.Order.Filling
import OrderWatch.Proofs.Order.Progress

/-
  What the responses of a record tell of its life.

  A response tells at most one event of each stage, in the
  order of the stages: that the order has been created, that
  some of it has been filled, and that it is over.  What has
  been told stays true: an order that was created is not
  pending again, and one that is over stays so, in the same
  way.  So whatever a record still has to tell goes with what
  it has told before.

  Main declarations:
    * `Topic.stage`, `Event.isCreation`
    * `Order.CallsFor`, `Order.callsFor_of_mem`
    * `Order.Tells`, `Order.tells_respond`
    * `Order.Since`, `Order.Since.respond`
    * `Event.Precedes`, `Order.Tells.follows`
-/

namespace OrderWatch

------------------------------------------------------------
-- Stages
------------------------------------------------------------

/- Where an event stands among those of one update. -/
def Topic.stage : Topic → Nat
  | .created _ => 0
  | .filled => 1
  | .completed _ | .cancelled | .failed => 2

def Topic.isCreation : Topic → Bool
  | .created _ => true
  | .filled | .completed _ | .cancelled | .failed => false

/- Whether an event says that its order has been created. -/
def Event.isCreation (e : Event) : Bool :=
  e.topic.isCreation

theorem Topic.isCreation_iff
    (t : Topic) :
    t.isCreation = true ↔ t.stage = 0 := by
  cases t <;> simp [isCreation, stage]

theorem Topic.isTerminal_iff
    (t : Topic) :
    t.isTerminal = true ↔ t.stage = 2 := by
  cases t <;> simp [isTerminal, stage]

theorem Event.topic_of_isCreation
    {e : Event}
    (hCreated : e.isCreation = true) :
    ∃ side, e.topic = .created side := by
  unfold isCreation at hCreated
  cases hTopic : e.topic with
  | created side => exact ⟨side, rfl⟩
  | _ =>
      rw [hTopic] at hCreated
      contradiction

/-
  An event may be told after another one of the same order:
  a creation as the first thing and only once, and an end
  only if it is the same as any that has been told.
-/
structure Event.Precedes (e f : Event) : Prop where
  created :
    f.isCreation = true →
      e.isCreation = false ∧ e.isTerminal = false
  ended :
    e.isTerminal = true → f.isTerminal = true →
      f.topic = e.topic

theorem Event.precedes_of_stage
    {e f : Event}
    (hStage : e.topic.stage < f.topic.stage) :
    e.Precedes f where
  created := by
    intro hCreated
    rw [(Topic.isCreation_iff _).mp hCreated] at hStage
    contradiction
  ended := by
    intro hFirst hSecond
    rw [(Topic.isTerminal_iff _).mp hFirst,
      (Topic.isTerminal_iff _).mp hSecond] at hStage
    contradiction

namespace Order

variable {o p : Order} {u : Update} {time : Time.Moment}
variable {policy : TerminalPolicy}

------------------------------------------------------------
-- Events of an update
------------------------------------------------------------

/- An event is about a record, at a time. -/
structure Signs
    (o : Order)
    (time : Time.Moment)
    (e : Event) : Prop where
  own : e.orderId = o.id
  time_eq : e.time = time

/- The events that an update calls for, and why. -/
inductive CallsFor
    (p : Order)
    (before : Snapshot)
    (channel : Channel)
    (time : Time.Moment) : Event → Prop where
  | created
      {e : Event}
      (hTopic : e.topic = .created p.side)
      (hSigns : p.Signs time e)
      (hMoved :
        channel = .status ∧ before.status = .pendingCreate ∧
          p.status = .open) :
      CallsFor p before channel time e
  | filled
      {e : Event}
      (hTopic : e.topic = .filled)
      (hSigns : p.Signs time e) :
      CallsFor p before channel time e
  | closing
      {e : Event}
      (hTerminal : e.isTerminal = true)
      (hTopic : p.closingTopic? = some e.topic)
      (hSigns : p.Signs time e) :
      CallsFor p before channel time e

variable {before : Snapshot} {channel : Channel} {e : Event}
variable {events : List Event}

theorem callsFor_creationSince
    (hEvent : p.creationSince before channel time = some e) :
    p.CallsFor before channel time e ∧ e.topic.stage = 0 := by
  unfold creationSince at hEvent
  split at hEvent
  · rename_i hMoved
    rw [← Option.some.inj hEvent]
    exact ⟨.created rfl ⟨rfl, rfl⟩ hMoved, rfl⟩
  · contradiction

theorem callsFor_fillSince
    (hFill : p.fillSince before time = .ok (some e)) :
    p.CallsFor before channel time e ∧ e.topic.stage = 1 := by
  unfold fillSince at hFill
  split at hFill
  · have hFill := Except.ok.inj hFill
    split at hFill
    · rw [← Option.some.inj hFill]
      exact ⟨.filled rfl ⟨rfl, rfl⟩, rfl⟩
    · contradiction
  · contradiction

theorem callsFor_terminalUnder?
    (hEvent : p.terminalUnder? policy time = some e) :
    p.CallsFor before channel time e ∧ e.topic.stage = 2 := by
  unfold terminalUnder? at hEvent
  split at hEvent
  · contradiction
  · have hTopic := p.topic_terminalEvent? time
    have hTerminal := isTerminal_terminalEvent? hEvent
    have hOwn := orderId_terminalEvent? hEvent
    have hTime : e.time = time := by
      unfold terminalEvent? at hEvent
      split at hEvent <;> first
        | contradiction
        | rw [← Option.some.inj hEvent]; rfl
    rw [hEvent] at hTopic
    exact
      ⟨.closing hTerminal hTopic.symm ⟨hOwn, hTime⟩,
        (Topic.isTerminal_iff _).mp hTerminal⟩

/- The events of an update, stage by stage. -/
theorem eventsSince_parts
    (hEvents :
      p.eventsSince before channel time policy = .ok events) :
    ∃ fill?,
      p.fillSince before time = .ok fill? ∧
      events =
        (p.creationSince before channel time).toList
          ++ fill?.toList
          ++ (p.terminalUnder? policy time).toList := by
  unfold eventsSince at hEvents
  cases hFill : p.fillSince before time with
  | error why =>
      rw [hFill] at hEvents
      contradiction
  | ok fill? =>
      rw [hFill] at hEvents
      exact ⟨fill?, rfl, (Except.ok.inj hEvents).symm⟩

theorem callsFor_of_mem
    (hEvents :
      p.eventsSince before channel time policy = .ok events)
    (hMem : e ∈ events) :
    p.CallsFor before channel time e := by
  rcases eventsSince_parts hEvents with ⟨fill?, hFill, rfl⟩
  simp only [List.mem_append, Option.mem_toList] at hMem
  rcases hMem with (hCreated | hFilled) | hClosed
  · exact (callsFor_creationSince hCreated).1
  · exact (callsFor_fillSince (hFilled ▸ hFill)).1
  · exact (callsFor_terminalUnder? hClosed).1

/- An order that has been taken is told as created. -/
theorem creationEvent_mem
    (hEvents :
      p.eventsSince before channel time policy = .ok events)
    (hMoved :
      channel = .status ∧ before.status = .pendingCreate ∧
        p.status = .open) :
    p.creationEvent time ∈ events := by
  rcases eventsSince_parts hEvents with ⟨fill?, _, rfl⟩
  unfold creationSince
  rw [if_pos hMoved]
  simp

/- One event of each stage at most, in their order. -/
theorem pairwise_stages
    {created? filled? closed? : Option Event}
    (hCreated : ∀ e, created? = some e → e.topic.stage = 0)
    (hFilled : ∀ e, filled? = some e → e.topic.stage = 1)
    (hClosed : ∀ e, closed? = some e → e.topic.stage = 2) :
    (created?.toList ++ filled?.toList
      ++ closed?.toList).Pairwise
        fun e f => e.topic.stage < f.topic.stage := by
  cases created? <;> cases filled? <;> cases closed? <;>
    simp_all

theorem staged_eventsSince
    (hEvents :
      p.eventsSince before channel time policy = .ok events) :
    events.Pairwise
      fun e f => e.topic.stage < f.topic.stage := by
  rcases eventsSince_parts hEvents with ⟨fill?, hFill, rfl⟩
  apply pairwise_stages
  · exact fun e hEvent => (callsFor_creationSince hEvent).2
  · intro e hEvent
    rw [hEvent] at hFill
    have hCalls :
        p.CallsFor before channel time e ∧ e.topic.stage = 1 :=
      callsFor_fillSince hFill
    exact hCalls.2
  · intro e hEvent
    have hCalls :
        p.CallsFor before channel time e ∧ e.topic.stage = 2 :=
      callsFor_terminalUnder? hEvent
    exact hCalls.2

------------------------------------------------------------
-- Responses
------------------------------------------------------------

/- What the response of a record to an update tells of it. -/
structure Tells
    (o : Order)
    (u : Update)
    (time : Time.Moment)
    (r : Order × Tracker.Receipt) : Prop where
  staged :
    r.2.verdict.events.Pairwise fun e f =>
      e.topic.stage < f.topic.stage
  signed :
    ∀ e ∈ r.2.verdict.events, e.orderId = o.id ∧ e.time = time
  created_iff :
    ∀ side,
      (∃ e ∈ r.2.verdict.events, e.topic = .created side) ↔
        u.channel = .status ∧ o.side = side ∧
        o.status = .pendingCreate ∧
        (o.apply u).1.status = .open
  closing :
    ∀ e ∈ r.2.verdict.events,
      e.isTerminal = true → r.1.closingTopic? = some e.topic

theorem closingTopic?_respond
    (o : Order)
    (u : Update)
    (time : Time.Moment)
    (policy : TerminalPolicy) :
    (o.respond u time policy).1.closingTopic? =
      (o.apply u).1.closingTopic? := by
  rcases o.respond_record u time policy with hSame | hMarked
  · rw [hSame]
  · rw [hMarked]
    rfl

/- An update that is not applied tells nothing. -/
theorem tells_of_ne_applied
    (hOther : (o.apply u).2 ≠ .ok .applied)
    (time : Time.Moment)
    (policy : TerminalPolicy) :
    o.Tells u time (o.respond u time policy) := by
  have hSilent := (respond_of_ne_applied hOther time policy).2.1
  have hStays := status_apply_of_ne_applied hOther
  refine
    { staged := ?_, signed := ?_, created_iff := ?_
      closing := ?_ }
  · rw [hSilent]
    exact List.Pairwise.nil
  · rw [hSilent]
    simp
  · intro side
    rw [hSilent, hStays]
    constructor
    · rintro ⟨e, hMem, _⟩
      contradiction
    · rintro ⟨_, _, hPending, hOpen⟩
      rw [hPending] at hOpen
      contradiction
  · rw [hSilent]
    simp

/- An applied update tells what has changed. -/
theorem tells_of_applied
    (hApplied : (o.apply u).2 = .ok .applied)
    (hEvents :
      (o.apply u).1.eventsSince o.snapshot u.channel time
        policy = .ok events) :
    o.Tells u time (o.respond u time policy) := by
  have hTerms := o.apply_sameTerms u
  have hClosing := o.closingTopic?_respond u time policy
  have hTold :
      (o.respond u time policy).2.verdict.events = events := by
    rw [respond_of_applied hApplied hEvents]
    rfl
  refine
    { staged := ?_, signed := ?_, created_iff := ?_
      closing := ?_ }
  · rw [hTold]
    exact staged_eventsSince hEvents
  · intro e hMem
    rw [hTold] at hMem
    rw [← hTerms.id_eq]
    cases callsFor_of_mem hEvents hMem with
    | created _ hSigns => exact ⟨hSigns.own, hSigns.time_eq⟩
    | filled _ hSigns => exact ⟨hSigns.own, hSigns.time_eq⟩
    | closing _ _ hSigns => exact ⟨hSigns.own, hSigns.time_eq⟩
  · intro side
    rw [hTold]
    constructor
    · rintro ⟨e, hMem, hTopic⟩
      cases callsFor_of_mem hEvents hMem with
      | created hOwn _ hMoved =>
          rw [hTopic, hTerms.side_eq] at hOwn
          exact
            ⟨hMoved.1, (Topic.created.inj hOwn).symm, hMoved.2⟩
      | filled hOwn =>
          rw [hTopic] at hOwn
          contradiction
      | closing hTerminal =>
          unfold Event.isTerminal at hTerminal
          rw [hTopic] at hTerminal
          contradiction
    · rintro ⟨hChannel, hSide, hPending, hOpen⟩
      have hMem :=
        creationEvent_mem hEvents ⟨hChannel, hPending, hOpen⟩
      refine ⟨_, hMem, ?_⟩
      change Topic.created (o.apply u).1.side = _
      rw [hTerms.side_eq, hSide]
  · intro e hMem hTerminal
    rw [hTold] at hMem
    rw [hClosing]
    unfold Event.isTerminal at hTerminal
    cases callsFor_of_mem hEvents hMem with
    | created hOwn =>
        rw [hOwn] at hTerminal
        contradiction
    | filled hOwn =>
        rw [hOwn] at hTerminal
        contradiction
    | closing _ hTopic => exact hTopic

theorem tells_respond
    (hUnsigned : o.executedBase.negative = false)
    (u : Update)
    (time : Time.Moment)
    (policy : TerminalPolicy) :
    o.Tells u time (o.respond u time policy) := by
  by_cases hApplied : (o.apply u).2 = .ok .applied
  · rcases eventsSince_split hUnsigned
        (apply_unsigned hUnsigned u) u.channel time with
      ⟨news, hEvents, _⟩
    exact tells_of_applied hApplied (hEvents policy)
  · exact tells_of_ne_applied hApplied time policy

/- A creation is told on the channel that tells no fills. -/
theorem Tells.apart
    (h : o.Tells u time (o.respond u time policy))
    {f : Event}
    (hFirst : e ∈ (o.respond u time policy).2.verdict.events)
    (hSecond : f ∈ (o.respond u time policy).2.verdict.events)
    (hCreated : e.isCreation = true) :
    f.topic ≠ .filled := by
  intro hFilled
  rcases Event.topic_of_isCreation hCreated with ⟨side, hTopic⟩
  have hChannel := ((h.created_iff side).mp ⟨e, hFirst, hTopic⟩).1
  cases u with
  | fill g => contradiction
  | status s =>
      cases f with
      | filled x =>
          have hIn : x ∈ fillsIn _ :=
            List.mem_filterMap.mpr ⟨.filled x, hSecond, rfl⟩
          rw [o.fillsIn_respond_status s time policy] at hIn
          contradiction
      | _ => contradiction

------------------------------------------------------------
-- What has been told
------------------------------------------------------------

/- An event that has been told is true of a record. -/
structure Since (o : Order) (e : Event) : Prop where
  created : e.isCreation = true → o.status ≠ .pendingCreate
  ended : e.isTerminal = true → o.closingTopic? = some e.topic

/- An order that is over stays over in the same way. -/
theorem closingTopic?_apply
    {topic : Topic}
    (hClosed : o.closingTopic? = some topic)
    (u : Update) :
    (o.apply u).1.closingTopic? = some topic := by
  have hDone : o.isDone = true := by
    unfold closingTopic? at hClosed
    unfold isDone
    cases hStatus : o.status <;> simp_all [Status.isTerminal]
  unfold closingTopic? at hClosed ⊢
  rw [status_apply_of_isDone hDone,
    (o.apply_sameTerms u).side_eq]
  exact hClosed

/- What has been told stays true. -/
theorem Since.respond
    (h : o.Since e)
    (u : Update)
    (time : Time.Moment)
    (policy : TerminalPolicy) :
    (o.respond u time policy).1.Since e where
  created := by
    intro hCreated hPending
    have hBefore := h.created hCreated
    rw [status_respond] at hPending
    rcases o.edge_apply u with hSame | hEdge
    · exact hBefore (hSame ▸ hPending)
    · rw [hPending] at hEdge
      exact
        hBefore (Status.eq_of_path_to_pending (.single hEdge))
  ended := by
    intro hTerminal
    rw [closingTopic?_respond]
    exact closingTopic?_apply (h.ended hTerminal) u

/- What a response tells is true. -/
theorem Tells.since
    (h : o.Tells u time (o.respond u time policy))
    (hMem : e ∈ (o.respond u time policy).2.verdict.events) :
    (o.respond u time policy).1.Since e where
  created := by
    intro hCreated hPending
    rcases Event.topic_of_isCreation hCreated with
      ⟨side, hTopic⟩
    have hOpen :=
      ((h.created_iff side).mp ⟨e, hMem, hTopic⟩).2.2.2
    rw [status_respond, hOpen] at hPending
    contradiction
  ended := h.closing e hMem

/- What a response tells goes with what has been told. -/
theorem Tells.follows
    (h : o.Tells u time (o.respond u time policy))
    {f : Event}
    (hSince : o.Since e)
    (hMem : f ∈ (o.respond u time policy).2.verdict.events) :
    e.Precedes f where
  created := by
    intro hCreated
    rcases Event.topic_of_isCreation hCreated with
      ⟨side, hTopic⟩
    have hPending :=
      ((h.created_iff side).mp ⟨f, hMem, hTopic⟩).2.2.1
    have hNone : o.closingTopic? = none := by
      unfold closingTopic?
      rw [hPending]
    constructor
    · by_contra hFirst
      exact hSince.created (by simpa using hFirst) hPending
    · by_contra hOver
      have hClosed := hSince.ended (by simpa using hOver)
      rw [hNone] at hClosed
      contradiction
  ended := by
    intro hFirst hSecond
    have hBefore := closingTopic?_apply (hSince.ended hFirst) u
    have hAfter := h.closing f hMem hSecond
    rw [closingTopic?_respond, hBefore] at hAfter
    exact (Option.some.inj hAfter).symm

end Order

end OrderWatch
