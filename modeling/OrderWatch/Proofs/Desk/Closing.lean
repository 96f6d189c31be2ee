import OrderWatch.Proofs.Desk.Records

/-
  How often the end of an order is told.

  A name is pending as long as the record that its updates go
  to is not done.  Under the policy `once` every terminal
  event of a name takes this away, and only a start gives it
  back, so at most one such event lies between two starts of
  the name.  Stopping an order, retiring it and dropping it
  from the cache can only take it away as well.

  Main declarations:
    * `Book.pending`
    * `closings`
    * `Desk.closings_perform`, `Desk.closings_run`
    * `Desk.closing_process`
    * `Desk.terminal_events_once`
-/

namespace OrderWatch

/- How many of some events close the order of a name. -/
def closings (id : OrderId) (events : List Event) : Nat :=
  events.countP fun e => e.isTerminal && e.orderId = id

------------------------------------------------------------
-- Pending names
------------------------------------------------------------

namespace Book

variable {b d : Book} {id : OrderId}

/- One if the latest record of a name is not done, or zero. -/
def pending (b : Book) (id : OrderId) : Nat :=
  if (b.latest? id).any (fun o => !o.isDone) then 1 else 0

theorem pending_le_one
    (b : Book)
    (id : OrderId) :
    b.pending id ≤ 1 := by
  unfold pending
  split <;> decide

theorem pending_of_latest?
    {o : Order}
    (hLatest : b.latest? id = some o) :
    b.pending id = if o.isDone then 0 else 1 := by
  unfold pending
  rw [hLatest, Option.any_some]
  cases o.isDone <;> rfl

/- What lets go of records makes no name pending. -/
theorem Fades.pending_le
    (hFades : b.Fades d)
    (id : OrderId) :
    d.pending id ≤ b.pending id := by
  unfold pending
  rcases hFades.latest id with hNone | hSame
  · rw [hNone]
    simp
  · rw [hSame]

/- Starting another order leaves a name as it is. -/
theorem pending_start
    {o : Order}
    (hOther : o.id ≠ id) :
    (b.start o).pending id = b.pending id := by
  unfold pending
  rw [latest?_start, if_neg (Ne.symm hOther)]

end Book

------------------------------------------------------------
-- Records of a run
------------------------------------------------------------

/- A settled record that lies under its own name. -/
structure Order.InPlace (id : OrderId) (o : Order) : Prop where
  own : o.id = id
  settled : o.Settled

theorem Order.inPlace_ofRequest
    (r : OrderRequest) :
    (Order.ofRequest r).InPlace (Order.ofRequest r).id where
  own := rfl
  settled := settled_ofRequest r

theorem Order.inPlace_respond :
    Desk.KeptByUpdates Order.InPlace := by
  intro o u time policy hPlace
  exact
    { own := rfl
      settled := hPlace.settled.respond u time policy }

namespace Desk

variable {L μ : Type} {hear : Hearing L μ} {d : Desk L μ}

/- One action leaves every record settled, under its name. -/
theorem inPlace_perform
    (hQuiet : hear.Quiet)
    (hAll : d.tracker.book.All Order.InPlace)
    {a : Action}
    (hRequested :
      ∀ o, a = .start o → ∃ r, o = Order.ofRequest r) :
    (d.perform hear a).1.tracker.book.All Order.InPlace := by
  apply all_perform hQuiet Order.inPlace_respond hAll
  intro o hStart
  rcases hRequested o hStart with ⟨r, rfl⟩
  exact Order.inPlace_ofRequest r

/- Every record of a run is settled and under its name. -/
theorem inPlace_run
    (hQuiet : hear.Quiet)
    (policy : TerminalPolicy)
    (capacity ttl : Nat)
    (clock : Time.Clock)
    (sink : Sink L)
    (memory : μ)
    {as : List Action}
    (hRequested :
      ∀ o, .start o ∈ as → ∃ r, o = Order.ofRequest r) :
    ((opening policy capacity ttl clock sink memory).run hear
      as).1.tracker.book.All Order.InPlace := by
  apply all_run hQuiet Order.inPlace_respond
  · exact Book.All.empty Order.InPlace capacity ttl
  · intro o hMem
    rcases hRequested o hMem with ⟨r, rfl⟩
    exact Order.inPlace_ofRequest r

------------------------------------------------------------
-- Updates
------------------------------------------------------------

/-
  The events of an update under the policy `once`: the last
  one is terminal exactly if the update has closed the record
  that was found.
-/
theorem closing_process
    (hQuiet : hear.Quiet)
    (hAll : d.tracker.book.All Order.InPlace)
    (hOnce : d.tracker.policy = .once)
    {u : Update}
    {o : Order}
    (hFound :
      (d.tracker.book.find d.tracker.now u.orderId).2 =
        some o) :
    ∃ news,
      (∀ e ∈ news,
        e.isTerminal = false ∧ e.orderId = u.orderId) ∧
      if o.isDone = false ∧ (o.apply u).1.isDone = true then
        ∃ e,
          (d.process hear u).2.events = news ++ [e] ∧
          e.isTerminal = true ∧ e.orderId = u.orderId ∧
          some e.topic = (o.apply u).1.closingTopic?
      else
        (d.process hear u).2.events = news := by
  have hPlace := hAll.of_find hFound
  have hVerdict := (process_known hQuiet hFound).1
  rw [hVerdict, hOnce, ← hPlace.own]
  exact hPlace.settled.closing u d.tracker.clock.now

/- What an update leaves pending. -/
theorem pending_process
    (hQuiet : hear.Quiet)
    (hAll : d.tracker.book.All Order.InPlace)
    {u : Update}
    {o : Order}
    (hFound :
      (d.tracker.book.find d.tracker.now u.orderId).2 =
        some o)
    (id : OrderId) :
    (d.process hear u).1.tracker.book.pending id ≤
      if id = u.orderId then
        if (o.apply u).1.isDone then 0 else 1
      else
        d.tracker.book.pending id := by
  have hPlace := hAll.of_find hFound
  rcases latest?_process hQuiet hAll.whole hPlace.own hFound
      id with hNone | hLatest
  · unfold Book.pending
    rw [hNone]
    exact Nat.zero_le _
  · by_cases hSame : id = u.orderId
    · rw [if_pos hSame] at hLatest ⊢
      rw [Book.pending_of_latest? hLatest, o.isDone_respond]
    · rw [if_neg hSame] at hLatest ⊢
      unfold Book.pending
      rw [hLatest]

/- An update that closes a record tells so as the last thing. -/
theorem terminal_of_closes
    (hQuiet : hear.Quiet)
    (hAll : d.tracker.book.All Order.InPlace)
    (hOnce : d.tracker.policy = .once)
    {u : Update}
    {o : Order}
    (hFound : (d.tracker.fetch u.orderId).2 = some o)
    (hCloses : o.isDone = false ∧ (o.apply u).1.isDone = true) :
    ∃ news e,
      (d.process hear u).2.events = news ++ [e] ∧
      (∀ n ∈ news, n.isTerminal = false) ∧
      e.orderId = u.orderId ∧
      some e.topic = (o.apply u).1.closingTopic? := by
  rcases closing_process hQuiet hAll hOnce hFound with
    ⟨news, hNews, hEvents⟩
  rw [if_pos hCloses] at hEvents
  rcases hEvents with ⟨e, hEvents, _, hOwn, hTopic⟩
  exact
    ⟨news, e, hEvents, fun n hMem => (hNews n hMem).1, hOwn,
      hTopic⟩

/- Only an update that closes a record tells so. -/
theorem terminal_iff_closes
    (hQuiet : hear.Quiet)
    (hAll : d.tracker.book.All Order.InPlace)
    (hOnce : d.tracker.policy = .once)
    (u : Update) :
    (∃ e ∈ (d.process hear u).2.events, e.isTerminal = true) ↔
      ∃ o, (d.tracker.fetch u.orderId).2 = some o ∧
        o.isDone = false ∧ (o.apply u).1.isDone = true := by
  constructor
  · rintro ⟨e, hMem, hTerminal⟩
    cases hFound :
        (d.tracker.book.find d.tracker.now u.orderId).2 with
    | none =>
        rw [(process_unknown hear hFound).2] at hMem
        contradiction
    | some o =>
        refine ⟨o, hFound, ?_⟩
        by_contra hCloses
        rcases closing_process hQuiet hAll hOnce hFound with
          ⟨news, hNews, hEvents⟩
        rw [if_neg hCloses] at hEvents
        rw [hEvents] at hMem
        rw [(hNews e hMem).1] at hTerminal
        contradiction
  · rintro ⟨o, hFound, hCloses⟩
    rcases closing_process hQuiet hAll hOnce hFound with
      ⟨news, _, hEvents⟩
    rw [if_pos hCloses] at hEvents
    rcases hEvents with ⟨e, hEvents, hTerminal, _⟩
    refine ⟨e, ?_, hTerminal⟩
    rw [hEvents]
    simp

theorem closings_of_none
    (id : OrderId)
    {events : List Event}
    (hNone : ∀ e ∈ events, e.isTerminal = false) :
    closings id events = 0 := by
  unfold closings
  rw [List.countP_eq_zero]
  intro e hMem
  simp [hNone e hMem]

theorem closings_append
    (id : OrderId)
    (xs ys : List Event) :
    closings id (xs ++ ys) = closings id xs + closings id ys :=
  List.countP_append

theorem closings_last
    (id : OrderId)
    {e : Event}
    (hTerminal : e.isTerminal = true) :
    closings id [e] = if id = e.orderId then 1 else 0 := by
  by_cases hSame : id = e.orderId
  · simp [closings, hTerminal, hSame]
  · simp [closings, hTerminal, hSame, Ne.symm hSame]

/- An update that closes an order does so for good. -/
theorem closings_process
    (hQuiet : hear.Quiet)
    (hAll : d.tracker.book.All Order.InPlace)
    (hOnce : d.tracker.policy = .once)
    (u : Update)
    (id : OrderId) :
    closings id (d.process hear u).2.events +
        (d.process hear u).1.tracker.book.pending id ≤
      d.tracker.book.pending id := by
  cases hFound :
      (d.tracker.book.find d.tracker.now u.orderId).2 with
  | none =>
      have hLooked :=
        (Book.fades_find hAll.whole d.tracker.now
          u.orderId).pending_le id
      rcases process_unknown hear hFound with ⟨hCore, hVerdict⟩
      have hBook := Tracker.book_of_core hCore
      rw [hVerdict, hBook]
      simpa [closings, Verdict.events] using hLooked
  | some o =>
      have hBefore :=
        Book.pending_of_latest?
          (Book.latest?_of_find hAll.whole hFound).1
      have hAfter := pending_process hQuiet hAll hFound id
      rcases closing_process hQuiet hAll hOnce hFound with
        ⟨news, hNews, hEvents⟩
      have hSilent :=
        closings_of_none id fun e hMem => (hNews e hMem).1
      by_cases hCloses :
          o.isDone = false ∧ (o.apply u).1.isDone = true
      · rw [if_pos hCloses] at hEvents
        rcases hEvents with
          ⟨e, hEvents, hTerminal, hOwn, _⟩
        rw [hEvents, closings_append, hSilent,
          closings_last id hTerminal, hOwn]
        rw [hCloses.1, if_neg (by decide)] at hBefore
        rw [hCloses.2, if_pos rfl] at hAfter
        by_cases hSame : id = u.orderId
        · rw [if_pos hSame] at hAfter ⊢
          rw [hSame] at hAfter ⊢
          omega
        · rw [if_neg hSame] at hAfter ⊢
          omega
      · rw [if_neg hCloses] at hEvents
        rw [hEvents, hSilent]
        by_cases hSame : id = u.orderId
        · rw [if_pos hSame] at hAfter
          rw [hSame] at hAfter ⊢
          rw [hBefore]
          cases hOpen : o.isDone with
          | false =>
              have hOne :=
                Book.pending_le_one
                  (d.process hear u).1.tracker.book u.orderId
              rw [if_neg (by decide)]
              omega
          | true =>
              have hStays : (o.apply u).1.isDone = true := by
                unfold Order.isDone at hOpen ⊢
                rw [Order.status_apply_of_isDone hOpen, hOpen]
              rw [hStays, if_pos rfl] at hAfter
              omega
        · rw [if_neg hSame] at hAfter
          omega

------------------------------------------------------------
-- Runs
------------------------------------------------------------

/- Only a start of its name makes an order pending again. -/
theorem closings_perform
    (hQuiet : hear.Quiet)
    (hAll : d.tracker.book.All Order.InPlace)
    (hOnce : d.tracker.policy = .once)
    {a : Action}
    {id : OrderId}
    (hOther : ∀ o, a = .start o → o.id ≠ id) :
    closings id (d.perform hear a).2.events +
        (d.perform hear a).1.tracker.book.pending id ≤
      d.tracker.book.pending id := by
  by_cases hLetsGo : a.LetsGo
  · have hSilent := events_of_letsGo hear d hLetsGo
    have hLess :=
      (fades_perform hear hAll.whole hLetsGo).1.pending_le id
    rw [hSilent]
    simpa [closings] using hLess
  · cases a with
    | start o =>
        have hSame :
            (d.tracker.book.start o).pending id =
              d.tracker.book.pending id :=
          Book.pending_start (hOther o rfl)
        have hSilent : closings id ([] : List Event) = 0 := rfl
        exact le_of_eq ((Nat.zero_add _).trans hSame)
    | update u => exact closings_process hQuiet hAll hOnce u id
    | _ => exact absurd trivial hLetsGo

/- A run without a start of a name closes it at most once. -/
theorem closings_run
    (hQuiet : hear.Quiet)
    (hAll : d.tracker.book.All Order.InPlace)
    (hOnce : d.tracker.policy = .once)
    {as : List Action}
    {id : OrderId}
    (hStarted :
      ∀ o, .start o ∈ as → o.InPlace o.id ∧ o.id ≠ id) :
    closings id ((d.run hear as).2.flatMap Answer.events) +
        (d.run hear as).1.tracker.book.pending id ≤
      d.tracker.book.pending id := by
  induction as generalizing d with
  | nil => exact le_of_eq (Nat.zero_add _)
  | cons a as ih =>
      have hFirst :=
        closings_perform hQuiet hAll hOnce (a := a)
          (fun o hStart => (hStarted o (by simp [hStart])).2)
      have hNext :
          (d.perform hear a).1.tracker.book.All Order.InPlace := by
        apply all_perform hQuiet Order.inPlace_respond hAll
        intro o hStart
        exact (hStarted o (by simp [hStart])).1
      have hPolicy :
          (d.perform hear a).1.tracker.policy = .once :=
        (policy_perform hQuiet d a).trans hOnce
      have hRest :=
        ih hNext hPolicy
          (fun o hMem => hStarted o (by simp [hMem]))
      have hSplit :
          closings id
              ((d.run hear (a :: as)).2.flatMap Answer.events) =
            closings id (d.perform hear a).2.events +
              closings id
                (((d.perform hear a).1.run hear as).2.flatMap
                  Answer.events) := by
        rw [← closings_append]
        rfl
      have hEnd :
          (d.run hear (a :: as)).1 =
            ((d.perform hear a).1.run hear as).1 := rfl
      rw [hSplit, hEnd]
      omega

/-
  At every point of a run the records, retired ones included,
  are marked exactly if they are done.  Under the policy
  `once` an update publishes a terminal event exactly if it
  closes the record that it finds, and then as its last event
  and for the status and side of the record; and without a
  new start a name gets at most one such event.
-/
theorem terminal_events_once
    (hQuiet : hear.Quiet)
    (policy : TerminalPolicy)
    (capacity ttl : Nat)
    (clock : Time.Clock)
    (sink : Sink L)
    (memory : μ)
    (as : List Action)
    (hRequested :
      ∀ o, .start o ∈ as → ∃ r, o = Order.ofRequest r) :
    let d : Desk L μ :=
      ((opening policy capacity ttl clock sink memory).run hear
        as).1
    (∀ (id : OrderId) (o : Order),
      d.tracker.book.active[id]? = some o →
      o.announced = o.isDone) ∧
    (∀ e ∈ d.tracker.book.retired.entries,
      e.value.announced = e.value.isDone) ∧
    (policy = .once →
      (∀ u,
        let found := (d.tracker.fetch u.orderId).2
        let events := (d.process hear u).2.events
        ((∃ e ∈ events, e.isTerminal = true) ↔
          ∃ o, found = some o ∧ o.isDone = false ∧
            (o.apply u).1.isDone = true) ∧
        ∀ o, found = some o → o.isDone = false →
          (o.apply u).1.isDone = true →
            ∃ news e,
              events = news ++ [e] ∧
              (∀ n ∈ news, n.isTerminal = false) ∧
              e.orderId = u.orderId ∧
              some e.topic = (o.apply u).1.closingTopic?) ∧
      ∀ id bs,
        (∀ o, .start o ∈ bs →
          (∃ r, o = Order.ofRequest r) ∧ o.id ≠ id) →
        closings id
          ((d.run hear bs).2.flatMap Answer.events) ≤ 1) := by
  intro d
  have hAll : d.tracker.book.All Order.InPlace :=
    inPlace_run hQuiet policy capacity ttl clock sink memory
      hRequested
  have hPolicy : d.tracker.policy = policy :=
    policy_run hQuiet
      (opening policy capacity ttl clock sink memory) as
  refine ⟨?_, ?_, ?_⟩
  · intro id o hActive
    exact (hAll.holds id o (.inl hActive)).settled.announced_eq
  · intro e hMem
    exact (hAll.of_entries hMem).settled.announced_eq
  · rintro rfl
    refine ⟨?_, ?_⟩
    · intro u found events
      exact
        ⟨terminal_iff_closes hQuiet hAll hPolicy u,
          fun o hFound hOpen hDone =>
            terminal_of_closes hQuiet hAll hPolicy hFound
              ⟨hOpen, hDone⟩⟩
    · intro id bs hStarted
      have hPlaced :
          ∀ o, .start o ∈ bs → o.InPlace o.id ∧ o.id ≠ id := by
        intro o hMem
        rcases hStarted o hMem with ⟨⟨r, rfl⟩, hOther⟩
        exact ⟨Order.inPlace_ofRequest r, hOther⟩
      have hBound := closings_run hQuiet hAll hPolicy hPlaced
      have hOne := d.tracker.book.pending_le_one id
      omega

/-
  An order that is cancelled, stopped and cancelled again has
  ended once.
-/
theorem terminal_events_once_cancelled :
    let r : OrderRequest := { (default : OrderRequest) with id := "a" }
    let u : StatusUpdate :=
      { (default : StatusUpdate) with
        orderId := "a", status := .cancelled }
    let d : Desk Unit Unit :=
      ((opening .once 1 10 default .silent ()).run Hearing.idle
        [.start (Order.ofRequest r)]).1
    closings "a"
      ((d.run Hearing.idle
        [.update (.status u), .stop "a", .fetch "a",
          .update (.status { u with sequence := 1 })]).2.flatMap
        Answer.events) = 1 := by
  intro r u d
  have hIdle : (Hearing.idle : Hearing Unit Unit).Still :=
    Hearing.still_idle
  have hRun :=
    terminal_events_once hIdle.quiet .once 1 10
      default .silent () [.start (Order.ofRequest r)]
      (fun o hMem => by
        rcases List.mem_singleton.mp hMem with ⟨rfl⟩
        exact ⟨r, rfl⟩)
  apply le_antisymm
  · exact (hRun.2.2 rfl).2 "a" _ (by simp)
  · decide +kernel

end Desk

end OrderWatch
