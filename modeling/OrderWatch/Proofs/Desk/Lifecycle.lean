import OrderWatch.Proofs.Desk.Closing
import OrderWatch.Proofs.Desk.Fills
import OrderWatch.Proofs.Desk.Latest
import OrderWatch.Proofs.Order.Telling

/-
  What is told of an order between two starts of its name.

  The record that the updates of a name go to changes only by
  its responses, until another order of the name is started.
  So what has been told of the name since the last start is
  true of this record, whether it is active or retired, and
  all that is told later goes with it: a creation comes first
  and once, and nobody is told of two different ends.

  Main declarations:
    * `eventsOf`, `Order.Bears`
    * `Desk.tells_process`
    * `Desk.bears_process`, `Desk.bears_perform`
    * `Desk.precedes_run`
    * `Desk.told_in_order`
-/

namespace OrderWatch

/- The events of a name. -/
def eventsOf
    (id : OrderId)
    (events : List Event) : List Event :=
  events.filter fun e => e.orderId = id

theorem eventsOf_append
    (id : OrderId)
    (xs ys : List Event) :
    eventsOf id (xs ++ ys) = eventsOf id xs ++ eventsOf id ys :=
  List.filter_append xs ys

/- Events that are all told of one name. -/
theorem eventsOf_own
    {own : OrderId}
    {events : List Event}
    (hOwn : ∀ e ∈ events, e.orderId = own)
    (id : OrderId) :
    eventsOf id events = if own = id then events else [] := by
  unfold eventsOf
  split
  · rename_i hSame
    rw [List.filter_eq_self]
    intro e hMem
    rw [hOwn e hMem, hSame]
    exact decide_eq_true rfl
  · rename_i hOther
    rw [List.filter_eq_nil_iff]
    intro e hMem
    rw [hOwn e hMem]
    simpa using hOther

/- What has been told of a name is true of its records. -/
def Order.Bears
    (id : OrderId)
    (past : List Event)
    (k : OrderId)
    (o : Order) : Prop :=
  k = id → ∀ e ∈ past, o.Since e

namespace Desk

variable {L μ : Type} {hear : Hearing L μ} {d : Desk L μ}
variable {u : Update} {o : Order} {id : OrderId}
variable {past : List Event}

------------------------------------------------------------
-- Updates
------------------------------------------------------------

/- A record that is found tells what its response tells. -/
theorem tells_process
    (hQuiet : hear.Quiet)
    (hAll : d.tracker.book.All Order.InPlace)
    (hFound :
      (d.tracker.book.find d.tracker.now u.orderId).2 =
        some o) :
    (d.process hear u).2 =
        (o.respond u d.tracker.clock.now
          d.tracker.policy).2.verdict ∧
      o.Tells u d.tracker.clock.now
        (o.respond u d.tracker.clock.now d.tracker.policy) := by
  have hPlace := hAll.of_find hFound
  exact
    ⟨(process_known hQuiet hFound).1,
      Order.tells_respond hPlace.settled.unsigned u _ _⟩

/- An update that finds no record tells nothing. -/
theorem events_unknown
    (hear : Hearing L μ)
    (hFound :
      (d.tracker.book.find d.tracker.now u.orderId).2 = none) :
    (d.process hear u).2.events = [] := by
  rw [(process_unknown hear hFound).2]
  rfl

/- What an update tells, and of which order and when. -/
theorem staged_process
    (hQuiet : hear.Quiet)
    (hAll : d.tracker.book.All Order.InPlace)
    (u : Update) :
    (d.process hear u).2.events.Pairwise
        (fun e f => e.topic.stage < f.topic.stage) ∧
      (∀ e ∈ (d.process hear u).2.events,
        e.orderId = u.orderId ∧ e.time = d.tracker.clock.now) ∧
      ∀ e ∈ (d.process hear u).2.events,
        ∀ f ∈ (d.process hear u).2.events,
          e.isCreation = true → f.topic ≠ .filled := by
  cases hFound :
      (d.tracker.book.find d.tracker.now u.orderId).2 with
  | none =>
      rw [events_unknown hear hFound]
      simp
  | some o =>
      rcases tells_process hQuiet hAll hFound with
        ⟨hVerdict, hTells⟩
      have hOwn : o.id = u.orderId := (hAll.of_find hFound).own
      have hSigned := hTells.signed
      rw [hOwn] at hSigned
      rw [hVerdict]
      exact
        ⟨hTells.staged, hSigned, fun e hFirst f hSecond =>
          hTells.apart hFirst hSecond⟩

/- Only the move from pending to open is told as creation. -/
theorem created_process_iff
    (hQuiet : hear.Quiet)
    (hAll : d.tracker.book.All Order.InPlace)
    (u : Update)
    (side : Side) :
    (∃ e ∈ (d.process hear u).2.events,
        e.topic = .created side) ↔
      ∃ s o,
        u = .status s ∧
        (d.tracker.fetch u.orderId).2 = some o ∧
        o.side = side ∧
        o.status = .pendingCreate ∧
        (o.apply u).1.status = .open := by
  cases hFound :
      (d.tracker.book.find d.tracker.now u.orderId).2 with
  | none =>
      have hNone : (d.tracker.fetch u.orderId).2 = none := hFound
      rw [events_unknown hear hFound, hNone]
      simp
  | some o =>
      have hSome : (d.tracker.fetch u.orderId).2 = some o := hFound
      rcases tells_process hQuiet hAll hFound with
        ⟨hVerdict, hTells⟩
      rw [hVerdict, hTells.created_iff side, hSome]
      constructor
      · rintro ⟨hChannel, hMoved⟩
        cases u with
        | status s => exact ⟨s, o, rfl, rfl, hMoved⟩
        | fill f => contradiction
      · rintro ⟨s, p, rfl, hSame, hMoved⟩
        rw [Option.some.inj hSame]
        exact ⟨rfl, hMoved⟩

/- What an update tells goes with what has been told. -/
theorem bears_process
    (hQuiet : hear.Quiet)
    (hAll : d.tracker.book.All Order.InPlace)
    (hBears : d.tracker.book.Latest (Order.Bears id past))
    (u : Update) :
    let news := eventsOf id (d.process hear u).2.events
    (d.process hear u).1.tracker.book.Latest
        (Order.Bears id (past ++ news)) ∧
      (past.Pairwise Event.Precedes →
        (past ++ news).Pairwise Event.Precedes) := by
  intro news
  cases hFound :
      (d.tracker.book.find d.tracker.now u.orderId).2 with
  | none =>
      have hNone : news = [] := by
        unfold news
        rw [events_unknown hear hFound]
        rfl
      rw [hNone, List.append_nil]
      exact
        ⟨latest_unknown hear hAll.whole hBears hFound, fun h => h⟩
  | some o =>
      have hOwn : o.id = u.orderId := (hAll.of_find hFound).own
      rcases tells_process hQuiet hAll hFound with
        ⟨hVerdict, hTells⟩
      have hNews :=
        eventsOf_own (fun e hMem => (hTells.signed e hMem).1) id
      rw [← hVerdict, hOwn] at hNews
      have hNews : news = if u.orderId = id then _ else [] := hNews
      by_cases hSame : u.orderId = id
      · -- Every event is one of the name.
        rw [if_pos hSame, hVerdict] at hNews
        have hBefore := hBears.of_find hAll.whole hFound hSame
        have hAfter :
            ∀ e ∈ past ++ news,
              (o.respond u d.tracker.clock.now
                d.tracker.policy).1.Since e := by
          intro e hMem
          rcases List.mem_append.mp hMem with hOld | hNew
          · exact (hBefore e hOld).respond u _ _
          · rw [hNews] at hNew
            exact hTells.since hNew
        refine ⟨?_, ?_⟩
        · refine
            latest_process hQuiet hAll.whole hBears hOwn hFound
              (fun _ => hAfter) ?_
          intro k p hOther _ hKey
          exact absurd (hKey.trans hSame.symm) hOther
        · intro hPast
          rw [List.pairwise_append]
          refine ⟨hPast, ?_, ?_⟩
          · rw [hNews]
            exact hTells.staged.imp Event.precedes_of_stage
          · intro e hOld f hNew
            rw [hNews] at hNew
            exact hTells.follows (hBefore e hOld) hNew
      · rw [if_neg hSame] at hNews
        rw [hNews, List.append_nil]
        refine ⟨?_, fun h => h⟩
        refine
          latest_process hQuiet hAll.whole hBears hOwn hFound
            (fun hKey => absurd hKey hSame) ?_
        exact fun k p _ hBefore => hBefore

------------------------------------------------------------
-- Runs
------------------------------------------------------------

/- Only another order of the name begins a new life. -/
theorem bears_perform
    (hQuiet : hear.Quiet)
    (hAll : d.tracker.book.All Order.InPlace)
    (hBears : d.tracker.book.Latest (Order.Bears id past))
    {a : Action}
    (hOther : ∀ o, a = .start o → o.id ≠ id) :
    let news := eventsOf id (d.perform hear a).2.events
    (d.perform hear a).1.tracker.book.Latest
        (Order.Bears id (past ++ news)) ∧
      (past.Pairwise Event.Precedes →
        (past ++ news).Pairwise Event.Precedes) := by
  intro news
  by_cases hLetsGo : a.LetsGo
  · have hNone : news = [] := by
      unfold news
      rw [events_of_letsGo hear d hLetsGo]
      rfl
    have hFades := (fades_perform hear hAll.whole hLetsGo).1
    rw [hNone, List.append_nil]
    exact ⟨hBears.fades hFades, fun h => h⟩
  · cases a with
    | start o =>
        have hNone : news = [] := rfl
        rw [hNone, List.append_nil]
        refine ⟨?_, fun h => h⟩
        exact
          hBears.start
            (fun hKey => absurd hKey (hOther o rfl))
            fun k p _ hBefore => hBefore
    | update u => exact bears_process hQuiet hAll hBears u
    | _ => exact absurd trivial hLetsGo

/- A run without a start of a name tells of it in order. -/
theorem precedes_run
    (hQuiet : hear.Quiet)
    (hAll : d.tracker.book.All Order.InPlace)
    (hBears : d.tracker.book.Latest (Order.Bears id past))
    (hPast : past.Pairwise Event.Precedes)
    {as : List Action}
    (hStarted :
      ∀ o, .start o ∈ as →
        (∃ r, o = Order.ofRequest r) ∧ o.id ≠ id) :
    (past ++
      eventsOf id
        ((d.run hear as).2.flatMap Answer.events)).Pairwise
          Event.Precedes := by
  induction as generalizing d past with
  | nil =>
      change (past ++ []).Pairwise _
      rw [List.append_nil]
      exact hPast
  | cons a as ih =>
      have hNext :=
        inPlace_perform hQuiet hAll (a := a)
          (fun o hStart => (hStarted o (by simp [hStart])).1)
      rcases bears_perform hQuiet hAll hBears (a := a)
          (fun o hStart => (hStarted o (by simp [hStart])).2) with
        ⟨hBears', hPairwise⟩
      have hRest :=
        ih hNext hBears' (hPairwise hPast)
          (fun o hMem => hStarted o (by simp [hMem]))
      change
        (past ++
          eventsOf id
            ((d.perform hear a).2.events ++
              ((d.perform hear a).1.run hear as).2.flatMap
                Answer.events)).Pairwise _
      rw [eventsOf_append, ← List.append_assoc]
      exact hRest

/-
  At every point of a run an update tells at most one event
  of each stage, in their order, of its own order and at the
  time of the clock; a creation is told if and only if a
  change of status has taken the record from pending to open,
  and never together with a fill.  Without a new start of its
  name an order is told to be created at most once and not
  after its end, and all ends that are told are the same.
-/
theorem told_in_order
    (hQuiet : hear.Quiet)
    (policy : TerminalPolicy)
    (capacity ttl : Nat)
    (clock : Time.Clock)
    (sink : Sink L)
    (memory : μ)
    (as : List Action)
    (hRequested :
      ∀ o, .start o ∈ as → ∃ r, o = Order.ofRequest r) :
    let d : Desk L μ :=
      ((opening policy capacity ttl clock sink memory).run hear
        as).1
    (∀ u,
      let events := (d.process hear u).2.events
      (∀ side,
        (∃ e ∈ events, e.topic = .created side) ↔
          ∃ s o,
            u = .status s ∧
            (d.tracker.fetch u.orderId).2 = some o ∧
            o.side = side ∧
            o.status = .pendingCreate ∧
            (o.apply u).1.status = .open) ∧
      events.Pairwise
        (fun e f => e.topic.stage < f.topic.stage) ∧
      (∀ e ∈ events,
        e.orderId = u.orderId ∧ e.time = d.tracker.clock.now) ∧
      ∀ e ∈ events, ∀ f ∈ events,
        e.isCreation = true → f.topic ≠ .filled) ∧
    ∀ id bs,
      (∀ o, .start o ∈ bs →
        (∃ r, o = Order.ofRequest r) ∧ o.id ≠ id) →
      (eventsOf id
        ((d.run hear bs).2.flatMap Answer.events)).Pairwise
          Event.Precedes := by
  intro d
  have hAll : d.tracker.book.All Order.InPlace :=
    inPlace_run hQuiet policy capacity ttl clock sink memory
      hRequested
  refine ⟨?_, ?_⟩
  · intro u events
    exact
      ⟨created_process_iff hQuiet hAll u,
        staged_process hQuiet hAll u⟩
  · intro id bs hStarted
    have hBears : d.tracker.book.Latest (Order.Bears id []) := by
      intro k o _ _ e hMem
      contradiction
    exact
      precedes_run hQuiet hAll hBears List.Pairwise.nil hStarted

/- An order is opened, filled, and filled once more. -/
theorem told_in_order_filledTwice :
    let d :=
      (replayDesk.run Hearing.idle
        [.start (.ofRequest Order.sampleRequest)]).1
    let opened : StatusUpdate :=
      { (default : StatusUpdate) with
        orderId := "a", status := .open }
    let told :=
      eventsOf "a"
        ((d.run Hearing.idle
          [.update (.status opened),
            .update (.fill Order.sampleFill),
            .update (.fill halfFill)]).2.flatMap Answer.events)
    told.map Event.topic =
        [.created .buy, .filled, .completed .buy, .filled,
          .completed .buy] ∧
      told.Pairwise Event.Precedes := by
  intro d opened told
  have hIdle : (Hearing.idle : Hearing Unit Unit).Still :=
    Hearing.still_idle
  have hTold :=
    told_in_order hIdle.quiet .replay 1 10 default .silent ()
      [.start (.ofRequest Order.sampleRequest)]
      (fun o hMem => by
        rcases List.mem_singleton.mp hMem with ⟨rfl⟩
        exact ⟨Order.sampleRequest, rfl⟩)
  exact
    ⟨by decide +kernel, hTold.2 "a" _ (by simp)⟩

end Desk

end OrderWatch
