import OrderWatch.Proofs.Desk.Run

/-
  What listeners leave behind when they hear of an update.

  The listeners are called one after the other, between the
  change of the record and the retirement of an order that is
  done.  They may start orders, and the retirement goes by
  name: it takes whatever order is active under the name of
  the update by then, even one that a listener has started
  and that the update has never reached.

  Main declarations:
    * `Book.Working`
    * `Desk.calls`, `Desk.tracker_heard`
    * `Tracker.Retires`, `Tracker.retires_iff`
    * `Desk.Sparing`
    * `Desk.sparing_iff`
-/

namespace OrderWatch

------------------------------------------------------------
-- Orders at work
------------------------------------------------------------

namespace Book

variable {b : Book} {id : OrderId} {o : Order}

/- An order of this name is active and not done. -/
def Working (b : Book) (id : OrderId) : Prop :=
  ∃ o, b.active[id]? = some o ∧ o.isDone = false

theorem working_iff_any
    (b : Book)
    (id : OrderId) :
    b.active[id]?.any (fun o => !o.isDone) = true ↔
      b.Working id := by
  rw [Option.any_eq_true]
  simp only [Working, Bool.not_eq_true']

instance
    (b : Book)
    (id : OrderId) :
    Decidable (b.Working id) :=
  decidable_of_iff _ (b.working_iff_any id)

/- A book with the same active order has it at work as well. -/
theorem Working.congr
    {d : Book}
    (hSame : d.active[id]? = b.active[id]?)
    (hWorking : b.Working id) :
    d.Working id := by
  rcases hWorking with ⟨o, hActive, hOpen⟩
  exact ⟨o, hSame.trans hActive, hOpen⟩

/- A record that is done is not at work once it is written. -/
theorem not_working_write
    (b : Book)
    (hDone : o.isDone = true) :
    ¬ (b.write o).Working o.id := by
  rintro ⟨p, hActive, hOpen⟩
  cases hBefore : b.active[o.id]? with
  | none =>
      rw [write_of_retired hBefore] at hActive
      rw [show (b.active[o.id]? = some p) from hActive] at hBefore
      contradiction
  | some q =>
      rw [write_of_active hBefore] at hActive
      change (b.active.insert o.id o)[o.id]? = some p at hActive
      rw [getElem?_insert, if_pos rfl] at hActive
      rw [← Option.some.inj hActive, hDone] at hOpen
      contradiction

end Book

------------------------------------------------------------
-- Updates that retire their orders
------------------------------------------------------------

namespace Order

variable {o p : Order}

theorem StatusStep.addressed
    {u : StatusUpdate}
    (hStep : o.StatusStep u p .applied) :
    u.orderId = o.id := by
  cases hStep with
  | moved hId => exact hId

theorem FillStep.addressed
    {f : Fill}
    (hStep : o.FillStep f p (.ok .applied)) :
    f.orderId = o.id := by
  cases hStep with
  | free base quote hAccepts => exact hAccepts.addressed
  | charged base quote total hAccepts =>
      exact hAccepts.addressed

/- Only an update of its own is applied to a record. -/
theorem addressed_of_applied
    {u : Update}
    (hApplied : (o.apply u).2 = .ok .applied) :
    u.orderId = o.id := by
  cases u with
  | status u =>
      have hStep := o.applyStatus_step u
      have hMoved : (o.applyStatus u).2 = .applied :=
        Except.ok.inj hApplied
      rw [hMoved] at hStep
      exact hStep.addressed
  | fill f =>
      have hStep := o.applyFill_step f
      have hFilled : (o.applyFill f).2 = .ok .applied := hApplied
      rw [hFilled] at hStep
      exact hStep.addressed

end Order

namespace Tracker

variable {t : Tracker} {u : Update}

/-
  An update that is applied to the record which is found for
  it, and that leaves this record done.
-/
def Retires (t : Tracker) (u : Update) : Prop :=
  ∃ o events,
    (t.fetch u.orderId).2 = some o ∧
    (t.receive u).2.verdict = .applied events ∧
    (o.apply u).1.isDone = true

theorem retires_iff
    (t : Tracker)
    (u : Update) :
    (t.receive u).2.retire = true ↔ t.Retires u := by
  unfold Retires
  cases hFound : (t.book.find t.now u.orderId).2 with
  | none =>
      have hNone : (t.fetch u.orderId).2 = none := hFound
      rw [(receive_unknown hFound).2, hNone]
      simp [Receipt.closed]
  | some o =>
      have hSome : (t.fetch u.orderId).2 = some o := hFound
      rw [(receive_known hFound).2, hSome,
        o.retire_respond_iff]
      simp

/-
  An update that retires leaves no order at work under its
  name, before any listener is called.
-/
theorem not_working_receive
    (hRetires : t.Retires u) :
    ¬ (t.receive u).1.book.Working u.orderId := by
  have hRetire := (t.retires_iff u).mpr hRetires
  rcases hRetires with ⟨o, events, hFound, _, hDone⟩
  rcases receive_known hFound with ⟨hCore, hReceipt⟩
  rw [hReceipt] at hRetire
  have hApplied : (o.apply u).2 = .ok .applied := by
    by_contra hOther
    rw [(Order.respond_of_ne_applied hOther _ _).2.2] at hRetire
    contradiction
  have hOwn :
      (o.respond u t.clock.now t.policy).1.id = u.orderId :=
    (o.id_respond u _ _).trans
      (Order.addressed_of_applied hApplied).symm
  have hLeft :
      (o.respond u t.clock.now t.policy).1.isDone = true :=
    (o.isDone_respond u _ _).trans hDone
  rw [book_of_core hCore, ← hOwn]
  exact Book.not_working_write _ hLeft

end Tracker

------------------------------------------------------------
-- Calls
------------------------------------------------------------

namespace Desk

variable {L μ : Type}

/- The desks as listeners leave them, one after the other. -/
def afterEach
    (hear : Hearing L μ)
    (e : Event) : Desk L μ → List (Listener L) → List (Desk L μ)
  | _, [] => []
  | d, l :: ls =>
      let d := deliver hear e d l
      d :: afterEach hear e d ls

/- The desks as the listeners of an event leave them. -/
def callsFor
    (hear : Hearing L μ)
    (d : Desk L μ)
    (e : Event) : List (Desk L μ) :=
  match d.sink with
  | .bus b => afterEach hear e d (b.subscribers e.topic)
  | .recording _ | .silent => []

/- The desks as the listeners of some events leave them. -/
def callsForAll
    (hear : Hearing L μ) : Desk L μ → List Event → List (Desk L μ)
  | _, [] => []
  | d, e :: events =>
      d.callsFor hear e ++
        (d.publish hear e).callsForAll hear events

/- The desks as the listeners of an update leave them. -/
def calls
    (hear : Hearing L μ)
    (d : Desk L μ)
    (u : Update) : List (Desk L μ) :=
  (d.received u).callsForAll hear
    (d.tracker.receive u).2.verdict.events

theorem last_afterEach
    (hear : Hearing L μ)
    (e : Event)
    (d : Desk L μ)
    (ls : List (Listener L)) :
    (afterEach hear e d ls).getLast?.getD d =
      ls.foldl (deliver hear e) d := by
  induction ls generalizing d with
  | nil => rfl
  | cons l ls ih =>
      unfold afterEach
      rw [List.getLast?_cons, Option.getD_some, List.foldl_cons]
      exact ih (deliver hear e d l)

/- The last call for an event leaves the tracker as it stays. -/
theorem tracker_publish
    (hear : Hearing L μ)
    (d : Desk L μ)
    (e : Event) :
    (d.publish hear e).tracker =
      ((d.callsFor hear e).getLast?.getD d).tracker := by
  unfold publish callsFor
  cases d.sink with
  | bus b => exact congrArg tracker (last_afterEach ..).symm
  | recording events => rfl
  | silent => rfl

theorem tracker_publishAll
    (hear : Hearing L μ)
    (d : Desk L μ)
    (events : List Event) :
    (d.publishAll hear events).tracker =
      ((d.callsForAll hear events).getLast?.getD d).tracker := by
  induction events generalizing d with
  | nil => rfl
  | cons e events ih =>
      unfold callsForAll
      rw [List.getLast?_append]
      have hRest := ih (d.publish hear e)
      have hFirst := d.tracker_publish hear e
      change
        ((d.publish hear e).publishAll hear events).tracker = _
      rw [hRest]
      cases ((d.publish hear e).callsForAll hear
          events).getLast? with
      | none => exact hFirst
      | some last => rfl

theorem tracker_heard
    (hear : Hearing L μ)
    (d : Desk L μ)
    (u : Update) :
    (d.heard hear u).tracker =
      ((d.calls hear u).getLast?.getD (d.received u)).tracker :=
  tracker_publishAll hear (d.received u) _

variable {hear : Hearing L μ} {d : Desk L μ} {u : Update}

/-
  An order at work after some call, which none of the later
  calls takes away, is at work once all have been made.
-/
theorem working_heard
    {before after : List (Desk L μ)}
    {m : Desk L μ}
    {id : OrderId}
    (hCalls : d.calls hear u = before ++ m :: after)
    (hWorking : m.tracker.book.Working id)
    (hLeft :
      (m :: after).IsChain fun x y =>
        x.tracker.book.Working id → y.tracker.book.Working id) :
    (d.heard hear u).tracker.book.Working id := by
  rw [tracker_heard, hCalls, List.getLast?_append,
    List.getLast?_cons, Option.some_or, Option.getD_some]
  clear hCalls
  -- The order is handed on from call to call.
  induction after generalizing m with
  | nil => exact hWorking
  | cons n after ih =>
      rcases List.isChain_cons_cons.mp hLeft with ⟨hNext, hRest⟩
      rw [List.getLast?_cons, Option.getD_some]
      exact ih (hNext hWorking) hRest

------------------------------------------------------------
-- Retirement
------------------------------------------------------------

/- An update that retires takes off what has its name by then. -/
theorem active_process_of_retires
    (hear : Hearing L μ)
    (hRetires : d.tracker.Retires u)
    (id : OrderId) :
    (d.process hear u).1.tracker.book.active[id]? =
      if id = u.orderId then
        none
      else
        (d.heard hear u).tracker.book.active[id]? := by
  have hCore :=
    ((d.heard hear u).tracker.core_stop u.orderId).1
  rw [process_eq,
    if_pos ((d.tracker.retires_iff u).mpr hRetires)]
  change
    ((d.heard hear u).tracker.stop
      u.orderId).1.book.active[id]? = _
  rw [Tracker.book_of_core hCore]
  exact Book.active_stop _ _ _ _

/- Other orders than the one of the update stay as they are. -/
theorem active_process
    (hear : Hearing L μ)
    {id : OrderId}
    (hOther : ¬ (id = u.orderId ∧ d.tracker.Retires u)) :
    (d.process hear u).1.tracker.book.active[id]? =
      (d.heard hear u).tracker.book.active[id]? := by
  by_cases hRetires : d.tracker.Retires u
  · have hId : id ≠ u.orderId :=
      fun hSame => hOther ⟨hSame, hRetires⟩
    rw [active_process_of_retires hear hRetires, if_neg hId]
  · rw [process_eq,
      if_neg (mt (d.tracker.retires_iff u).mp hRetires)]

theorem inactive_process
    (hear : Hearing L μ)
    (hRetires : d.tracker.Retires u) :
    (d.process hear u).1.tracker.book.active[u.orderId]? =
      none := by
  rw [active_process_of_retires hear hRetires, if_pos rfl]

/-
  Every order that is at work after the call of a listener,
  and that no later call takes away, is still at work when
  the update has been processed.
-/
def Sparing
    (hear : Hearing L μ)
    (d : Desk L μ)
    (u : Update) : Prop :=
  ∀ before m after id,
    d.calls hear u = before ++ m :: after →
    m.tracker.book.Working id →
    ((m :: after).IsChain fun x y =>
      x.tracker.book.Working id → y.tracker.book.Working id) →
    (d.process hear u).1.tracker.book.Working id

/-
  An order that a listener has started under the name of an
  update is lost if the update retires.
-/
theorem not_sparing_of_working
    (hRetires : d.tracker.Retires u)
    (hWorking : (d.heard hear u).tracker.book.Working u.orderId) :
    ¬ d.Sparing hear u := by
  intro hSparing
  have hFirst := Tracker.not_working_receive hRetires
  have hLast := hWorking
  rw [tracker_heard] at hLast
  cases hCalls : d.calls hear u using List.reverseRecOn with
  | nil =>
      -- Without a call it would be at work from the beginning.
      rw [hCalls] at hLast
      exact hFirst hLast
  | append_singleton before m _ =>
      rw [hCalls, List.getLast?_concat, Option.getD_some] at hLast
      have hStays :=
        hSparing before m [] u.orderId hCalls hLast
          (List.isChain_singleton m)
      rcases hStays with ⟨o, hActive, _⟩
      rw [inactive_process hear hRetires] at hActive
      contradiction

/-
  An update spares the orders that listeners start unless it
  retires and one of them is at work under its name by then.
  An update that retires leaves nothing at work under its
  name for the listeners to find, and nothing active there
  after them; all other orders stay as they leave them.
-/
theorem sparing_iff
    (hear : Hearing L μ)
    (d : Desk L μ)
    (u : Update) :
    (d.Sparing hear u ↔
      ¬ (d.tracker.Retires u ∧
        (d.heard hear u).tracker.book.Working u.orderId)) ∧
    (d.tracker.Retires u →
      ¬ (d.received u).tracker.book.Working u.orderId ∧
      (d.process hear u).1.tracker.book.active[u.orderId]? =
        none) ∧
    ∀ id, ¬ (id = u.orderId ∧ d.tracker.Retires u) →
      (d.process hear u).1.tracker.book.active[id]? =
        (d.heard hear u).tracker.book.active[id]? := by
  refine ⟨⟨?_, ?_⟩, ?_, ?_⟩
  · rintro hSparing ⟨hRetires, hWorking⟩
    exact not_sparing_of_working hRetires hWorking hSparing
  · intro hNever before m after id hCalls hWorking hLeft
    have hHeard := working_heard hCalls hWorking hLeft
    have hOther : ¬ (id = u.orderId ∧ d.tracker.Retires u) := by
      rintro ⟨rfl, hRetires⟩
      exact hNever ⟨hRetires, hHeard⟩
    exact hHeard.congr (active_process hear hOther)
  · intro hRetires
    exact
      ⟨Tracker.not_working_receive hRetires,
        inactive_process hear hRetires⟩
  · intro id hOther
    exact active_process hear hOther

/- A request for an order of nothing. -/
def plainRequest : OrderRequest :=
  { (default : OrderRequest) with id := "a" }

/- A listener that starts an order anew when it hears of it. -/
def restarting : Hearing Unit Unit := fun _ e d =>
  let o := Order.ofRequest { plainRequest with id := e.orderId }
  (d.withTracker (d.tracker.start o), .done)

/- A desk with one order and a listener that restarts it. -/
def restless : Desk Unit Unit :=
  let bus := (Bus.subscribe ∅ .cancelled (.other "b" ())).1
  ((opening .once 1 10 default (.bus bus) ()).perform restarting
    (.start (.ofRequest plainRequest))).1

/-
  The order that is started when another of its name has been
  cancelled is retired in the place of that one.
-/
theorem not_sparing_restless :
    let u : Update :=
      .status
        { (default : StatusUpdate) with
          orderId := "a", status := .cancelled }
    ¬ restless.Sparing restarting u ∧
      ¬ (restless.received u).tracker.book.Working "a" ∧
      (restless.heard restarting u).tracker.book.Working "a" ∧
      ¬ (restless.process restarting u).1.tracker.book.Working
        "a" := by
  intro u
  have hRetires : restless.tracker.Retires u :=
    (restless.tracker.retires_iff u).mp (by decide +kernel)
  have hHeard :
      (restless.heard restarting u).tracker.book.Working "a" := by
    decide +kernel
  exact
    ⟨not_sparing_of_working hRetires hHeard,
      Tracker.not_working_receive hRetires, hHeard,
      by decide +kernel⟩

end Desk

end OrderWatch
