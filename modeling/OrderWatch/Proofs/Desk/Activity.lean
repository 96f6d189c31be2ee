import OrderWatch.Proofs.Book.Places
import OrderWatch.Proofs.Desk.Closing
import OrderWatch.Proofs.Desk.Delivery
import OrderWatch.Proofs.Desk.Fills

/-
  Which orders are active, and what becomes of the others.

  An order is active from its start until it is stopped, by
  hand or because an update has brought it to its end.  So no
  active order is done, and an update of a retired order does
  not make it active again.  One that is no longer active can
  be found at once as the retired order last used, with the
  record that it had when it was taken off.

  Main declarations:
    * `Order.Settled.retire_iff`
    * `Book.AtWork`, `Book.Ends`, `Book.ActiveAfter`
    * `Tracker.stop_front`
    * `Desk.activeAfter?`, `Desk.active_perform`
    * `Desk.atWork_run`
    * `Desk.leaving?`, `Desk.Leads`
    * `Desk.leads_perform`
    * `Desk.active_until_done`
-/

namespace OrderWatch

------------------------------------------------------------
-- Updates of active orders
------------------------------------------------------------

/-
  A settled record that is not done is retired exactly by the
  updates that bring it to its end.
-/
theorem Order.Settled.retire_iff
    {o : Order}
    (hSettled : o.Settled)
    (hOpen : o.isDone = false)
    (u : Update)
    (time : Time.Moment)
    (policy : TerminalPolicy) :
    (o.respond u time policy).2.retire = true ↔
      (o.apply u).1.isDone = true := by
  constructor
  · intro hRetire
    exact ((o.retire_respond_iff u time policy).mp hRetire).2
  · intro hDone
    have hApplied : (o.apply u).2 = .ok .applied := by
      by_contra hOther
      unfold isDone at hOpen hDone
      rw [status_apply_of_ne_applied hOther, hOpen] at hDone
      contradiction
    rcases eventsSince_split hSettled.unsigned
        (apply_unsigned hSettled.unsigned u) u.channel time
        with ⟨news, hEvents, _⟩
    rw [respond_of_applied hApplied (hEvents policy)]
    exact hDone

namespace Book

/- No active order is done. -/
def AtWork (b : Book) : Prop :=
  ∀ (id : OrderId) (o : Order),
    b.active[id]? = some o → o.isDone = false

/- An update that brings an active order to its end. -/
def Ends (b : Book) (u : Update) : Prop :=
  ∃ o, b.active[u.orderId]? = some o ∧
    (o.apply u).1.isDone = true

/- Whether a name is active once something has been done. -/
def ActiveAfter (b : Book) (id : OrderId) : Action → Prop
  | .start o => id = o.id ∨ b.isActive id
  | .stop k => id ≠ k ∧ b.isActive id
  | .update u => ¬ (id = u.orderId ∧ b.Ends u) ∧ b.isActive id
  | _ => b.isActive id

theorem atWork_empty
    (capacity ttl : Nat) :
    (Book.empty capacity ttl).AtWork := by
  intro id o hActive
  simp [Book.empty] at hActive

theorem ends_iff
    {b : Book}
    {u : Update}
    {o : Order}
    (hActive : b.active[u.orderId]? = some o) :
    b.Ends u ↔ (o.apply u).1.isDone = true := by
  unfold Ends
  rw [hActive]
  simp

end Book

namespace Tracker

variable {t : Tracker} {u : Update} {o : Order}

/- The active orders when a record is brought up to date. -/
theorem active_receive
    (hAll : t.book.All Order.InPlace)
    (u : Update)
    (k : OrderId) :
    (t.receive u).1.book.active[k]? =
      if k = u.orderId then
        t.book.active[k]?.map fun o =>
          (o.respond u t.clock.now t.policy).1
      else
        t.book.active[k]? := by
  have hLooked := Book.active_find t.book t.now u.orderId
  cases hFound : (t.book.find t.now u.orderId).2 with
  | none =>
      have hGone : t.book.active[u.orderId]? = none := by
        cases hActive : t.book.active[u.orderId]? with
        | none => rfl
        | some o =>
            rw [Book.find_of_active hActive] at hFound
            contradiction
      rw [book_of_core (receive_unknown hFound).1, hLooked]
      split
      · rename_i hSame
        rw [hSame, hGone]
        rfl
      · rfl
  | some o =>
      have hId :
          (o.respond u t.clock.now t.policy).1.id = u.orderId :=
        (o.id_respond u _ _).trans (hAll.of_find hFound).own
      rw [book_of_core (receive_known hFound).1,
        Book.active_write, hLooked, hId]
      split
      · rename_i hSame
        rw [hSame]
        cases hActive : t.book.active[u.orderId]? with
        | none => rfl
        | some p =>
            rw [Book.find_of_active hActive] at hFound
            rw [← Option.some.inj hFound]
            rfl
      · rfl

/- An active order is retired when an update has ended it. -/
theorem retires_iff_of_active
    (hAll : t.book.All Order.InPlace)
    (hWork : t.book.AtWork)
    (hActive : t.book.active[u.orderId]? = some o) :
    t.Retires u ↔ (o.apply u).1.isDone = true := by
  have hFound : (t.book.find t.now u.orderId).2 = some o := by
    rw [Book.find_of_active hActive]
  rw [← t.retires_iff, (receive_known hFound).2]
  exact
    (hAll.of_find hFound).settled.retire_iff
      (hWork u.orderId o hActive) u _ _

/-
  An order that is stopped is found at once, as the retired
  order last used.
-/
theorem stop_front
    {capacity ttl : Nat}
    (hMade : t.book.Made capacity ttl)
    (hCapacity : 0 < capacity)
    (hTtl : 0 < ttl)
    {id : OrderId}
    (hActive : t.fetchActive id = some o) :
    ((t.stop id).1.fetch id).2 = some o ∧
      ∃ rest,
        (t.stop id).1.book.retired.liveEntries
            (t.stop id).1.now =
          ⟨id, o, t.now, t.now⟩ :: rest := by
  have hCore := (t.core_stop id).1
  rw [← hMade.capacity_eq] at hCapacity
  rw [← hMade.ttl_eq] at hTtl
  have hFront :=
    Book.stop_front hMade.whole hCapacity hTtl hActive t.now
  change
    ((t.stop id).1.book.find (t.stop id).1.now id).2 = _ ∧ _
  rw [book_of_core hCore, now_of_core hCore]
  exact hFront

end Tracker

------------------------------------------------------------
-- Actions
------------------------------------------------------------

namespace Desk

variable {L μ : Type} {hear : Hearing L μ} {d : Desk L μ}

/- The active order of a name after an action. -/
def activeAfter?
    (d : Desk L μ)
    (k : OrderId) : Action → Option Order
  | .start o =>
      if k = o.id then some o else d.tracker.fetchActive k
  | .stop id =>
      if k = id then none else d.tracker.fetchActive k
  | .update u =>
      ((d.received u).tracker.fetchActive k).filter
        fun o => !o.isDone
  | _ => d.tracker.fetchActive k

/- An update leaves the orders active that are not done. -/
theorem active_process_filter
    (hQuiet : hear.Quiet)
    (hAll : d.tracker.book.All Order.InPlace)
    (hWork : d.tracker.book.AtWork)
    (u : Update)
    (k : OrderId) :
    (d.process hear u).1.tracker.fetchActive k =
      ((d.received u).tracker.fetchActive k).filter
        fun o => !o.isDone := by
  have hHeard := book_heard_received hQuiet d u
  have hReceived := Tracker.active_receive hAll u k
  change (d.received u).tracker.book.active[k]? = _ at hReceived
  unfold Tracker.fetchActive
  by_cases hSame : k = u.orderId
  · rw [if_pos hSame] at hReceived
    subst hSame
    cases hActive : d.tracker.book.active[u.orderId]? with
    | none =>
        rw [hActive, Option.map_none] at hReceived
        rw [hReceived, Option.filter_none]
        by_cases hRetires : d.tracker.Retires u
        · exact inactive_process hear hRetires
        · rw [active_process hear (fun h => hRetires h.2),
            hHeard, hReceived]
    | some o =>
        rw [hActive, Option.map_some] at hReceived
        have hRetires :=
          Tracker.retires_iff_of_active hAll hWork hActive
        rw [hReceived, Option.filter_some, o.isDone_respond]
        cases hEnd : (o.apply u).1.isDone with
        | true =>
            exact inactive_process hear (hRetires.mpr hEnd)
        | false =>
            have hStays : ¬ d.tracker.Retires u := by
              rw [hRetires, hEnd]
              decide
            rw [active_process hear (fun h => hStays h.2),
              hHeard, hReceived]
            rfl
  · rw [if_neg hSame] at hReceived
    rw [active_process hear (fun h => hSame h.1), hHeard,
      hReceived]
    cases hActive : d.tracker.book.active[k]? with
    | none => rfl
    | some o =>
        rw [Option.filter_some, hWork k o hActive]
        rfl

/- Only starts and stops do something to the active orders. -/
theorem active_bookAfter
    (d : Desk L μ)
    {a : Action}
    (hOther : ∀ u, a ≠ .update u)
    (k : OrderId) :
    (d.bookAfter a).active[k]? = d.activeAfter? k a := by
  cases a with
  | start o => exact Book.getElem?_insert _ o k
  | update u => exact absurd rfl (hOther u)
  | stop id =>
      exact d.tracker.book.active_stop d.tracker.now id k
  | fetch id =>
      have hLooked :=
        Book.active_find d.tracker.book d.tracker.now id
      exact congrArg (·[k]?) hLooked
  | _ => rfl

/- The active orders after any action. -/
theorem active_perform
    (hQuiet : hear.Quiet)
    (hAll : d.tracker.book.All Order.InPlace)
    (hWork : d.tracker.book.AtWork)
    (a : Action)
    (k : OrderId) :
    (d.perform hear a).1.tracker.fetchActive k =
      d.activeAfter? k a := by
  cases a with
  | update u => exact active_process_filter hQuiet hAll hWork u k
  | _ =>
      unfold Tracker.fetchActive
      rw [book_perform hear d (by simp)]
      exact d.active_bookAfter (by simp) k

/- Which names are active after any action. -/
theorem isActive_perform
    (hQuiet : hear.Quiet)
    (hAll : d.tracker.book.All Order.InPlace)
    (hWork : d.tracker.book.AtWork)
    (a : Action)
    (id : OrderId) :
    (d.perform hear a).1.tracker.book.isActive id = true ↔
      d.tracker.book.ActiveAfter id a := by
  have hAfter := active_perform hQuiet hAll hWork a id
  unfold Tracker.fetchActive at hAfter
  rw [Book.isActive_iff, hAfter]
  cases a with
  | start o =>
      unfold activeAfter? Book.ActiveAfter
      rw [Book.isActive_iff]
      by_cases hSame : id = o.id
      · simp [hSame]
      · simp [hSame, Tracker.fetchActive]
  | stop k =>
      unfold activeAfter? Book.ActiveAfter
      rw [Book.isActive_iff]
      by_cases hSame : id = k
      · simp [hSame]
      · simp [hSame, Tracker.fetchActive]
  | update u =>
      have hReceived := Tracker.active_receive hAll u id
      change (d.received u).tracker.fetchActive id = _
        at hReceived
      simp only [activeAfter?, Book.ActiveAfter,
        Book.isActive_iff, hReceived]
      by_cases hSame : id = u.orderId
      · subst hSame
        rw [if_pos rfl]
        cases hActive : d.tracker.book.active[u.orderId]? with
        | none => simp
        | some p =>
            rw [Book.ends_iff hActive, Option.map_some,
              Option.filter_some, p.isDone_respond]
            cases (p.apply u).1.isDone <;> simp
      · rw [if_neg hSame]
        cases hActive : d.tracker.book.active[id]? with
        | none => simp
        | some p =>
            rw [Option.filter_some, hWork id p hActive]
            simp [hSame]
  | _ => exact (Book.isActive_iff _ id).symm

/- One action leaves no active order that is done. -/
theorem atWork_perform
    (hQuiet : hear.Quiet)
    (hAll : d.tracker.book.All Order.InPlace)
    (hWork : d.tracker.book.AtWork)
    {a : Action}
    (hFresh : ∀ o, a = .start o → o.isDone = false) :
    (d.perform hear a).1.tracker.book.AtWork := by
  intro k o hActive
  have hAfter := active_perform hQuiet hAll hWork a k
  unfold Tracker.fetchActive at hAfter
  rw [hActive] at hAfter
  cases a with
  | start p =>
      by_cases hSame : k = p.id
      · simp only [activeAfter?, if_pos hSame] at hAfter
        rw [Option.some.inj hAfter]
        exact hFresh p rfl
      · simp only [activeAfter?, if_neg hSame] at hAfter
        exact hWork k o hAfter.symm
  | update u =>
      rcases Option.filter_eq_some_iff.mp hAfter.symm with
        ⟨_, hOpen⟩
      simpa using hOpen
  | stop id =>
      by_cases hSame : k = id
      · simp [activeAfter?, hSame] at hAfter
      · simp only [activeAfter?, if_neg hSame] at hAfter
        exact hWork k o hAfter.symm
  | _ => exact hWork k o hAfter.symm

/- At no point of a run is an active order done. -/
theorem atWork_run
    (hQuiet : hear.Quiet)
    (hAll : d.tracker.book.All Order.InPlace)
    (hWork : d.tracker.book.AtWork)
    {as : List Action}
    (hRequested :
      ∀ o, .start o ∈ as → ∃ r, o = Order.ofRequest r) :
    (d.run hear as).1.tracker.book.AtWork := by
  induction as generalizing d with
  | nil => exact hWork
  | cons a as ih =>
      have hNext :=
        inPlace_perform hQuiet hAll (a := a)
          (fun o hStart => hRequested o (by simp [hStart]))
      have hStill :
          (d.perform hear a).1.tracker.book.AtWork := by
        apply atWork_perform hQuiet hAll hWork
        intro o hStart
        rcases hRequested o (by simp [hStart]) with ⟨r, rfl⟩
        rfl
      exact
        ih hNext hStill (fun o hMem => hRequested o (by simp [hMem]))

------------------------------------------------------------
-- Orders that are taken off
------------------------------------------------------------

/- The record of an order when an action takes it off. -/
def leaving?
    (d : Desk L μ)
    (id : OrderId) : Action → Option Order
  | .update u => (d.received u).tracker.fetchActive id
  | _ => d.tracker.fetchActive id

/-
  An order that comes first among the retired ones, and that
  is found as such.
-/
def Leads (d : Desk L μ) (id : OrderId) (o : Order) : Prop :=
  (d.tracker.fetch id).2 = some o ∧
    ∃ rest,
      (d.tracker.book.retired.liveEntries d.tracker.now).map
          (fun e => (e.key, e.value)) =
        (id, o) :: rest

/- An order that is stopped leads the retired ones. -/
theorem leads_stop
    {capacity ttl : Nat}
    (hMade : d.tracker.book.Made capacity ttl)
    (hCapacity : 0 < capacity)
    (hTtl : 0 < ttl)
    {id : OrderId}
    {o : Order}
    (hActive : d.tracker.fetchActive id = some o) :
    (d.withTracker (d.tracker.stop id).1).Leads id o := by
  rcases Tracker.stop_front hMade hCapacity hTtl hActive with
    ⟨hFound, rest, hFront⟩
  refine ⟨hFound, rest.map fun e => (e.key, e.value), ?_⟩
  change
    ((d.tracker.stop id).1.book.retired.liveEntries
        (d.tracker.stop id).1.now).map _ = _
  rw [hFront]
  rfl

/- An order that an action takes off leads the retired ones. -/
theorem leads_perform
    (hQuiet : hear.Quiet)
    (hAll : d.tracker.book.All Order.InPlace)
    (hWork : d.tracker.book.AtWork)
    {capacity ttl : Nat}
    (hMade : d.tracker.book.Made capacity ttl)
    (hCapacity : 0 < capacity)
    (hTtl : 0 < ttl)
    {a : Action}
    {id : OrderId}
    (hBefore : d.tracker.book.isActive id = true)
    (hAfter :
      (d.perform hear a).1.tracker.book.isActive id = false) :
    ∃ o, d.leaving? id a = some o ∧
      (d.perform hear a).1.Leads id o := by
  rcases (Book.isActive_iff _ id).mp hBefore with ⟨p, hActive⟩
  have hActive : d.tracker.fetchActive id = some p := hActive
  have hGone :
      (d.perform hear a).1.tracker.fetchActive id = none := by
    rw [← Option.not_isSome_iff_eq_none,
      Option.isSome_iff_exists]
    intro hStill
    rw [(Book.isActive_iff _ id).mpr hStill] at hAfter
    contradiction
  have hPerform := active_perform hQuiet hAll hWork a id
  rw [hGone] at hPerform
  cases a with
  | start o =>
      simp only [activeAfter?, hActive] at hPerform
      split at hPerform <;> contradiction
  | update u =>
      have hHeard := book_heard_received hQuiet d u
      have hLeft :
          ∃ q, (d.received u).tracker.fetchActive id = some q := by
        have hReceived := Tracker.active_receive hAll u id
        change (d.received u).tracker.fetchActive id = _
          at hReceived
        rw [hReceived]
        change d.tracker.book.active[id]? = some p at hActive
        rw [hActive]
        split <;> exact ⟨_, rfl⟩
      rcases hLeft with ⟨q, hLeft⟩
      refine ⟨q, hLeft, ?_⟩
      unfold Tracker.fetchActive at hLeft
      rw [← hHeard] at hLeft
      by_cases hOwn : id = u.orderId ∧ d.tracker.Retires u
      · rcases hOwn with ⟨rfl, hRetires⟩
        have hMade' :=
          lasting_received (Book.lasting_made capacity ttl)
            hMade u
        rw [← hHeard] at hMade'
        change (d.process hear u).1.Leads u.orderId q
        rw [process_eq,
          if_pos ((d.tracker.retires_iff u).mpr hRetires)]
        exact leads_stop hMade' hCapacity hTtl hLeft
      · have hStays := active_process hear hOwn
        rw [hLeft] at hStays
        exact absurd (hGone.symm.trans hStays) (by simp)
  | stop k =>
      simp only [activeAfter?, hActive] at hPerform
      split at hPerform
      · rename_i hSame
        subst hSame
        exact
          ⟨p, hActive,
            leads_stop hMade hCapacity hTtl hActive⟩
      · contradiction
  | _ => exact absurd (hPerform.trans hActive) (by simp)

/-
  At every point of a run no active order is done.  A start
  makes its name active, a stop takes exactly its name off,
  an update takes its name off exactly if it ends the active
  order, and nothing else changes which names are active.  If
  the cache can hold anything at all, an order that is taken
  off can be found at once, with the record that it had, and
  is the living retired order that was used last.
-/
theorem active_until_done
    (hQuiet : hear.Quiet)
    (policy : TerminalPolicy)
    (capacity ttl : Nat)
    (clock : Time.Clock)
    (sink : Sink L)
    (memory : μ)
    (as : List Action)
    (hRequested :
      ∀ o, .start o ∈ as → ∃ r, o = Order.ofRequest r) :
    let d : Desk L μ :=
      ((opening policy capacity ttl clock sink memory).run hear
        as).1
    (∀ id o, d.tracker.fetchActive id = some o →
      o.isDone = false) ∧
    ∀ a id,
      let d' := (d.perform hear a).1
      (d'.tracker.book.isActive id = true ↔
        d.tracker.book.ActiveAfter id a) ∧
      (0 < capacity → 0 < ttl →
        d.tracker.book.isActive id = true →
        d'.tracker.book.isActive id = false →
        ∃ o, d.leaving? id a = some o ∧ d'.Leads id o) := by
  intro d
  have hAll : d.tracker.book.All Order.InPlace :=
    inPlace_run hQuiet policy capacity ttl clock sink memory
      hRequested
  have hMade : d.tracker.book.Made capacity ttl :=
    made_run hQuiet policy capacity ttl clock sink memory as
  have hWork : d.tracker.book.AtWork :=
    atWork_run hQuiet
      (Book.All.empty Order.InPlace capacity ttl)
      (Book.atWork_empty capacity ttl)
      hRequested
  refine ⟨hWork, ?_⟩
  intro a id d'
  refine ⟨isActive_perform hQuiet hAll hWork a id, ?_⟩
  intro hCapacity hTtl hBefore hAfter
  exact
    leads_perform hQuiet hAll hWork hMade hCapacity hTtl hBefore
      hAfter

/- Two orders are started, and one of them is stopped. -/
def crowding : List Action :=
  [.start (.ofRequest { plainRequest with id := "b" }),
    .start (.ofRequest plainRequest), .stop "b"]

/- The other one is cancelled. -/
def cancelling : Action :=
  .update (.status
    { (default : StatusUpdate) with
      orderId := "a", status := .cancelled })

/- An order takes the place of another one in the cache. -/
theorem active_until_done_crowded :
    (smallDesk.run Hearing.idle
        crowding).1.tracker.book.isActive "a" = true ∧
      (smallDesk.run Hearing.idle crowding).1.displaced
        Hearing.idle cancelling = 1 ∧
      ((smallDesk.run Hearing.idle crowding).1.perform
        Hearing.idle cancelling).1.tracker.book.isActive "a" =
          false ∧
      ∃ o,
        (smallDesk.run Hearing.idle crowding).1.leaving? "a"
          cancelling = some o ∧
        ((smallDesk.run Hearing.idle crowding).1.perform
          Hearing.idle cancelling).1.Leads "a" o := by
  have hStarted :
      ∀ o, .start o ∈ crowding → ∃ r, o = Order.ofRequest r := by
    intro o hMem
    simp only [crowding, List.mem_cons, Action.start.injEq,
      List.not_mem_nil, or_false, reduceCtorEq] at hMem
    rcases hMem with rfl | rfl
    · exact ⟨_, rfl⟩
    · exact ⟨plainRequest, rfl⟩
  have hBefore :
      (smallDesk.run Hearing.idle
        crowding).1.tracker.book.isActive "a" = true := by
    decide +kernel
  have hAfter :
      ((smallDesk.run Hearing.idle crowding).1.perform
        Hearing.idle cancelling).1.tracker.book.isActive "a" =
          false := by
    decide +kernel
  have hIdle : (Hearing.idle : Hearing Unit Unit).Still :=
    Hearing.still_idle
  have hRun :=
    active_until_done hIdle.quiet .once 1 10 default .silent ()
      crowding hStarted
  have hLeads := (hRun.2 cancelling "a").2 (by decide) (by decide)
  exact
    ⟨hBefore, by decide +kernel, hAfter, hLeads hBefore hAfter⟩

end Desk

end OrderWatch
