import OrderWatch.Desk
import OrderWatch.Proofs.Book
import OrderWatch.Proofs.Order.Response

/-
  Runs of a desk.

  A run is a list of actions: orders are started and stopped,
  updates come in, records are looked up, time goes on.  Each
  action is answered.  The journal plays no part in what is
  answered, so all that matters of a tracker is its policy,
  its clock and its book.

  Quiet listeners leave the book and the policy alone; still
  ones do not move the clock either.  They may do anything
  else: remember things, note things in the journal, change
  the subscriptions, fail.

  Main declarations:
    * `Action`, `Answer`
    * `Desk.perform`, `Desk.run`
    * `Hearing.Quiet`, `Hearing.Still`
    * `Tracker.receive_unknown`, `Tracker.receive_known`
    * `Desk.bookAfter`, `Desk.core_perform`
    * `Desk.answerTo`, `Desk.answer_perform`
    * `Desk.process_unknown`, `Desk.process_known`
-/

namespace OrderWatch

------------------------------------------------------------
-- Actions
------------------------------------------------------------

/- What can be done with a desk. -/
inductive Action where
  | start (o : Order)
  | update (u : Update)
  | stop (id : OrderId)
  | fetch (id : OrderId)
  | fetchActive (id : OrderId)
  | fetchRetired (id : OrderId)
  | activeOrders
  | retiredOrders
  | summary
  | purge
  | sweep
  | advance (nanos : Nat)

/- What is answered to an action. -/
inductive Answer where
  | done
  | verdict (v : Verdict)
  | stopped (b : Bool)
  | order (o? : Option Order)
  | orders (os : List (OrderId × Order))
  | summary (s : Tracker.Summary)
  | purged (n : Nat)

/- The events that have been published with an answer. -/
def Answer.events : Answer → List Event
  | .verdict v => v.events
  | _ => []

namespace Desk

variable {L μ : Type}

/- A desk without orders. -/
def opening
    (policy : TerminalPolicy)
    (capacity ttl : Nat)
    (clock : Time.Clock)
    (sink : Sink L)
    (memory : μ) : Desk L μ :=
  { tracker := .opening policy capacity ttl clock
    sink, memory }

/- Put another tracker in the place of the present one. -/
def withTracker (d : Desk L μ) (t : Tracker) : Desk L μ :=
  { d with tracker := t }

/- Do something with a desk. -/
def perform
    (hear : Hearing L μ)
    (d : Desk L μ) : Action → Desk L μ × Answer
  | .start o => (d.withTracker (d.tracker.start o), .done)
  | .update u =>
      let (d, v) := d.process hear u
      (d, .verdict v)
  | .stop id =>
      let (t, wasActive) := d.tracker.stop id
      (d.withTracker t, .stopped wasActive)
  | .fetch id =>
      let (t, o?) := d.tracker.fetch id
      (d.withTracker t, .order o?)
  | .fetchActive id => (d, .order (d.tracker.fetchActive id))
  | .fetchRetired id =>
      let (t, o?) := d.tracker.fetchRetired id
      (d.withTracker t, .order o?)
  | .activeOrders => (d, .orders d.tracker.book.activeOrders)
  | .retiredOrders =>
      (d, .orders (d.tracker.book.retiredOrders d.tracker.now))
  | .summary => (d, .summary d.tracker.summary)
  | .purge =>
      let (t, dropped) := d.tracker.purge
      (d.withTracker t, .purged dropped)
  | .sweep => (d.withTracker d.tracker.sweep, .done)
  | .advance nanos =>
      (d.withTracker (d.tracker.advance nanos), .done)

/- Do one thing after the other. -/
def run
    (hear : Hearing L μ)
    (d : Desk L μ) : List Action → Desk L μ × List Answer
  | [] => (d, [])
  | a :: rest =>
      let (d, answer) := d.perform hear a
      let (d, answers) := run hear d rest
      (d, answer :: answers)

theorem run_append
    (hear : Hearing L μ)
    (d : Desk L μ)
    (as bs : List Action) :
    d.run hear (as ++ bs) =
      (((d.run hear as).1.run hear bs).1,
        (d.run hear as).2 ++
          ((d.run hear as).1.run hear bs).2) := by
  induction as generalizing d with
  | nil => rfl
  | cons a as ih =>
      simp only [List.cons_append, run, ih]

end Desk

------------------------------------------------------------
-- Trackers without their journals
------------------------------------------------------------

namespace Tracker

variable {t : Tracker} {u : Update} {o : Order}

/- All of a tracker but its journal. -/
structure Core where
  policy : TerminalPolicy
  clock : Time.Clock
  book : Book

def core (t : Tracker) : Core :=
  ⟨t.policy, t.clock, t.book⟩

section

variable {policy : TerminalPolicy} {clock : Time.Clock} {b : Book}

theorem policy_of_core
    (h : t.core = ⟨policy, clock, b⟩) :
    t.policy = policy :=
  congrArg Core.policy h

theorem clock_of_core
    (h : t.core = ⟨policy, clock, b⟩) :
    t.clock = clock :=
  congrArg Core.clock h

theorem now_of_core
    (h : t.core = ⟨policy, clock, b⟩) :
    t.now = clock.elapsed :=
  congrArg (fun s : Core => s.clock.elapsed) h

theorem book_of_core
    (h : t.core = ⟨policy, clock, b⟩) :
    t.book = b :=
  congrArg Core.book h

end

theorem core_announce
    (t : Tracker)
    (o : Order)
    (events : List Event) :
    (t.announce o events).core = t.core := by
  unfold announce
  induction events generalizing t with
  | nil => rfl
  | cons e events ih =>
      rw [List.foldl_cons, ih]
      rfl

theorem core_start
    (t : Tracker)
    (o : Order) :
    (t.start o).core = { t.core with book := t.book.start o } :=
  rfl

theorem core_stop
    (t : Tracker)
    (id : OrderId) :
    (t.stop id).1.core =
        { t.core with book := (t.book.stop t.now id).1 } ∧
      (t.stop id).2 = (t.book.stop t.now id).2.isSome := by
  unfold stop
  cases hActive : t.book.active[id]? with
  | none =>
      rw [Book.stop_of_inactive hActive]
      exact ⟨rfl, rfl⟩
  | some o =>
      rw [Book.stop_of_active hActive]
      exact ⟨rfl, rfl⟩

theorem core_fetch
    (t : Tracker)
    (id : OrderId) :
    (t.fetch id).1.core =
        { t.core with book := (t.book.find t.now id).1 } ∧
      (t.fetch id).2 = (t.book.find t.now id).2 :=
  ⟨rfl, rfl⟩

theorem core_fetchRetired
    (t : Tracker)
    (id : OrderId) :
    (t.fetchRetired id).1.core =
        { t.core with
          book := (t.book.findRetired t.now id).1 } ∧
      (t.fetchRetired id).2 = (t.book.findRetired t.now id).2 :=
  ⟨rfl, rfl⟩

theorem core_purge
    (t : Tracker) :
    t.purge.1.core =
        { t.core with book := (t.book.purge t.now).1 } ∧
      t.purge.2 = (t.book.purge t.now).2 := by
  unfold purge
  simp only
  split
  · exact ⟨rfl, rfl⟩
  · exact ⟨rfl, rfl⟩

theorem core_sweep
    (t : Tracker) :
    t.sweep.core =
      { t.core with book := (t.book.purge t.now).1 } := by
  rw [← t.core_purge.1]
  unfold sweep
  simp only
  split
  · rfl
  · rfl

/- An update for a name under which nothing is found. -/
theorem receive_unknown
    (hNone : (t.book.find t.now u.orderId).2 = none) :
    (t.receive u).1.core =
        { t.core with
          book := (t.book.find t.now u.orderId).1 } ∧
      (t.receive u).2 =
        .closed (.ignored (.unknownOrder u.orderId)) := by
  unfold receive fetch
  simp only [hNone]
  exact ⟨rfl, rfl⟩

/-
  An update for a record that is found: its response is
  written and answered.
-/
theorem receive_known
    (hSome : (t.book.find t.now u.orderId).2 = some o) :
    (t.receive u).1.core =
        { t.core with
          book :=
            (t.book.find t.now u.orderId).1.write
              (o.respond u t.clock.now t.policy).1 } ∧
      (t.receive u).2 =
        (o.respond u t.clock.now t.policy).2 := by
  unfold receive fetch Order.respond
  simp only [hSome]
  rcases o.apply u with ⟨p, outcome⟩
  cases outcome with
  | error why => exact ⟨rfl, rfl⟩
  | ok outcome =>
      cases outcome with
      | unchanged => exact ⟨rfl, rfl⟩
      | stale last => exact ⟨rfl, rfl⟩
      | rejected reason => exact ⟨rfl, rfl⟩
      | applied =>
          unfold applied Order.settle
          simp only
          cases hEvents :
              p.eventsSince o.snapshot u.channel t.clock.now
                t.policy with
          | error why => exact ⟨rfl, rfl⟩
          | ok events =>
              have hAnnounced :=
                core_announce
                  { t with
                    book :=
                      (t.book.find t.now u.orderId).1.write p }
                  p events
              have hMarked :
                  (if events.any Event.isTerminal then
                      p.announce
                    else
                      p).id = p.id := by
                split <;> rfl
              have hTwice :=
                Book.write_write
                  (t.book.find t.now u.orderId).1 hMarked
              have hDone :
                  (if events.any Event.isTerminal then
                      p.announce
                    else
                      p).isDone = p.isDone := by
                split <;> rfl
              refine ⟨?_, congrArg (Receipt.mk _) hDone⟩
              rw [← hTwice]
              unfold core at hAnnounced ⊢
              rcases Core.mk.inj hAnnounced with
                ⟨hPolicy, hClock, hBook⟩
              simp only [hPolicy, hClock, hBook]

/- Only an applied update may retire its order. -/
theorem receive_receipt
    (t : Tracker)
    (u : Update) :
    (∃ events, (t.receive u).2.verdict = .applied events) ∨
      (t.receive u).2 = .closed (t.receive u).2.verdict := by
  cases hFound : (t.book.find t.now u.orderId).2 with
  | none =>
      rw [(receive_unknown hFound).2]
      exact .inr rfl
  | some o =>
      rw [(receive_known hFound).2]
      exact o.respond_receipt u t.clock.now t.policy

end Tracker

------------------------------------------------------------
-- Actions other than updates
------------------------------------------------------------

variable {L μ : Type}

namespace Desk

/- The book after an action that is not an update. -/
def bookAfter (d : Desk L μ) : Action → Book
  | .start o => d.tracker.book.start o
  | .stop id => (d.tracker.book.stop d.tracker.now id).1
  | .fetch id => (d.tracker.book.find d.tracker.now id).1
  | .fetchRetired id =>
      (d.tracker.book.findRetired d.tracker.now id).1
  | .purge | .sweep => (d.tracker.book.purge d.tracker.now).1
  | _ => d.tracker.book

/- The clock after an action that is not an update. -/
def clockAfter (d : Desk L μ) : Action → Time.Clock
  | .advance nanos => d.tracker.clock.advance nanos
  | _ => d.tracker.clock

/-
  An action that is not an update does something to the book,
  or moves the clock.
-/
theorem core_perform
    (hear : Hearing L μ)
    (d : Desk L μ)
    {a : Action}
    (hOther : ∀ u, a ≠ .update u) :
    (d.perform hear a).1.tracker.core =
      ⟨d.tracker.policy, d.clockAfter a, d.bookAfter a⟩ := by
  cases a with
  | update u => exact absurd rfl (hOther u)
  | stop id => exact (d.tracker.core_stop id).1
  | purge => exact d.tracker.core_purge.1
  | sweep => exact d.tracker.core_sweep
  | _ => rfl

theorem book_perform
    (hear : Hearing L μ)
    (d : Desk L μ)
    {a : Action}
    (hOther : ∀ u, a ≠ .update u) :
    (d.perform hear a).1.tracker.book = d.bookAfter a :=
  Tracker.book_of_core (core_perform hear d hOther)

/- What is answered to an action that is not an update. -/
def answerTo (d : Desk L μ) : Action → Answer
  | .stop id =>
      .stopped (d.tracker.book.stop d.tracker.now id).2.isSome
  | .fetch id => .order (d.tracker.book.find d.tracker.now id).2
  | .fetchActive id => .order (d.tracker.fetchActive id)
  | .fetchRetired id =>
      .order (d.tracker.book.findRetired d.tracker.now id).2
  | .activeOrders => .orders d.tracker.book.activeOrders
  | .retiredOrders =>
      .orders (d.tracker.book.retiredOrders d.tracker.now)
  | .summary => .summary d.tracker.summary
  | .purge => .purged (d.tracker.book.purge d.tracker.now).2
  | _ => .done

theorem answer_perform
    (hear : Hearing L μ)
    (d : Desk L μ)
    {a : Action}
    (hOther : ∀ u, a ≠ .update u) :
    (d.perform hear a).2 = d.answerTo a := by
  cases a with
  | update u => exact absurd rfl (hOther u)
  | stop id =>
      exact congrArg Answer.stopped (d.tracker.core_stop id).2
  | purge => exact congrArg Answer.purged d.tracker.core_purge.2
  | _ => rfl

end Desk

------------------------------------------------------------
-- Quiet listeners
------------------------------------------------------------

/- Listeners that leave the book and the policy alone. -/
structure Hearing.Quiet (hear : Hearing L μ) : Prop where
  policy_eq :
    ∀ l e d,
      (hear l e d).1.tracker.policy = d.tracker.policy
  book_eq :
    ∀ l e d, (hear l e d).1.tracker.book = d.tracker.book

/- Quiet listeners that do not move the clock. -/
structure Hearing.Still (hear : Hearing L μ) : Prop where
  quiet : hear.Quiet
  clock_eq :
    ∀ l e d, (hear l e d).1.tracker.clock = d.tracker.clock

/- Listeners that do nothing. -/
def Hearing.idle : Hearing L μ := fun _ _ d =>
  (d, .done)

theorem Hearing.still_idle :
    (Hearing.idle : Hearing L μ).Still where
  quiet := ⟨fun _ _ _ => rfl, fun _ _ _ => rfl⟩
  clock_eq := fun _ _ _ => rfl

/- What is the same for every journal of a tracker. -/
def Tracker.Unnoted {α : Type} (view : Tracker → α) : Prop :=
  ∀ t journal, view { t with journal } = view t

namespace Desk

variable {hear : Hearing L μ}

/- What listeners leave alone stays when they are called. -/
theorem view_deliver
    {α : Type}
    {view : Tracker → α}
    (hUnnoted : Tracker.Unnoted view)
    (hHear :
      ∀ l e d, view (hear l e d).1.tracker = view d.tracker)
    (e : Event)
    (d : Desk L μ)
    (l : Listener L) :
    view (deliver hear e d l).tracker = view d.tracker := by
  cases l with
  | log => exact hUnnoted d.tracker _
  | other name l =>
      have hHeard := hHear l e d
      unfold deliver noteFailure
      simp only
      split
      · exact hHeard
      · exact
          (hUnnoted (hear l e d).1.tracker _).trans hHeard
      · exact
          (hUnnoted (hear l e d).1.tracker _).trans hHeard

theorem view_publish
    {α : Type}
    {view : Tracker → α}
    (hUnnoted : Tracker.Unnoted view)
    (hHear :
      ∀ l e d, view (hear l e d).1.tracker = view d.tracker)
    (d : Desk L μ)
    (e : Event) :
    view (d.publish hear e).tracker = view d.tracker := by
  unfold publish
  split
  · rename_i b hSink
    clear hSink
    induction b.subscribers e.topic generalizing d with
    | nil => rfl
    | cons l ls ih =>
        rw [List.foldl_cons, ih,
          view_deliver hUnnoted hHear e d l]
  · rfl
  · rfl

theorem view_publishAll
    {α : Type}
    {view : Tracker → α}
    (hUnnoted : Tracker.Unnoted view)
    (hHear :
      ∀ l e d, view (hear l e d).1.tracker = view d.tracker)
    (d : Desk L μ)
    (events : List Event) :
    view (d.publishAll hear events).tracker =
      view d.tracker := by
  unfold publishAll
  induction events generalizing d with
  | nil => rfl
  | cons e events ih =>
      rw [List.foldl_cons, ih,
        view_publish hUnnoted hHear d e]

------------------------------------------------------------
-- Updates under quiet listeners
------------------------------------------------------------

variable {d : Desk L μ} {u : Update} {o : Order}

/- A desk whose tracker has brought a record up to date. -/
def received (d : Desk L μ) (u : Update) : Desk L μ :=
  d.withTracker (d.tracker.receive u).1

/- A desk whose listeners have heard of an update. -/
def heard
    (hear : Hearing L μ)
    (d : Desk L μ)
    (u : Update) : Desk L μ :=
  (d.received u).publishAll hear
    (d.tracker.receive u).2.verdict.events

/-
  An update in three steps: the record, the listeners, and
  the retirement of an order that is done.
-/
theorem process_eq
    (hear : Hearing L μ)
    (d : Desk L μ)
    (u : Update) :
    d.process hear u =
      (if (d.tracker.receive u).2.retire then
          (d.heard hear u).withTracker
            ((d.heard hear u).tracker.stop u.orderId).1
        else
          d.heard hear u,
        (d.tracker.receive u).2.verdict) := by
  unfold process heard received
  rcases d.tracker.receive_receipt u with
    ⟨events, hApplied⟩ | hClosed
  · simp only [hApplied, Verdict.events]
    split <;> rfl
  · generalize (d.tracker.receive u).2.verdict = v at hClosed
    simp only [hClosed]
    cases v <;> rfl

theorem verdict_process
    (hear : Hearing L μ)
    (d : Desk L μ)
    (u : Update) :
    (d.process hear u).2 = (d.tracker.receive u).2.verdict := by
  rw [process_eq]

/-
  An update for a name under which nothing is found changes
  nothing but the book, by the look-up.
-/
theorem process_unknown
    (hear : Hearing L μ)
    (hNone :
      (d.tracker.book.find d.tracker.now u.orderId).2 = none) :
    (d.process hear u).1.tracker.core =
        { d.tracker.core with
          book :=
            (d.tracker.book.find d.tracker.now u.orderId).1 } ∧
      (d.process hear u).2 =
        .ignored (.unknownOrder u.orderId) := by
  rcases Tracker.receive_unknown hNone with ⟨hCore, hReceipt⟩
  rw [process_eq]
  unfold heard
  rw [hReceipt]
  exact ⟨hCore, rfl⟩

/- Quiet listeners leave the book as they find it. -/
theorem book_heard_received
    (hQuiet : hear.Quiet)
    (d : Desk L μ)
    (u : Update) :
    (d.heard hear u).tracker.book = (d.received u).tracker.book :=
  view_publishAll (fun _ _ => rfl) hQuiet.book_eq _ _

/- So they leave what has been written. -/
theorem book_heard
    (hQuiet : hear.Quiet)
    (hSome :
      (d.tracker.book.find d.tracker.now u.orderId).2 =
        some o) :
    (d.heard hear u).tracker.book =
      (d.tracker.book.find d.tracker.now u.orderId).1.write
        (o.respond u d.tracker.clock.now
          d.tracker.policy).1 := by
  have hCore := (Tracker.receive_known hSome).1
  exact
    (book_heard_received hQuiet d u).trans
      (Tracker.book_of_core hCore)

/-
  An update for a record that is found: the response is
  answered and written, and the order may be retired at a
  time that the listeners decide.
-/
theorem process_known
    (hQuiet : hear.Quiet)
    (hSome :
      (d.tracker.book.find d.tracker.now u.orderId).2 =
        some o) :
    let response :=
      o.respond u d.tracker.clock.now d.tracker.policy
    let written :=
      (d.tracker.book.find d.tracker.now u.orderId).1.write
        response.1
    (d.process hear u).2 = response.2.verdict ∧
      (d.process hear u).1.tracker.core =
        { policy := d.tracker.policy
          clock := (d.heard hear u).tracker.clock
          book :=
            if response.2.retire then
              (written.stop (d.heard hear u).tracker.now
                u.orderId).1
            else
              written } := by
  intro response written
  have hBook : (d.heard hear u).tracker.book = written :=
    book_heard hQuiet hSome
  rcases Tracker.receive_known hSome with ⟨hCore, hReceipt⟩
  have hReceipt : (d.tracker.receive u).2 = response.2 :=
    hReceipt
  have hPolicy :
      (d.heard hear u).tracker.policy = d.tracker.policy :=
    (view_publishAll (fun _ _ => rfl) hQuiet.policy_eq _ _).trans
      (Tracker.policy_of_core hCore)
  rw [process_eq, hReceipt]
  refine ⟨rfl, ?_⟩
  split
  · have hStop :=
      ((d.heard hear u).tracker.core_stop u.orderId).1
    rw [hBook] at hStop
    unfold Tracker.core at hStop ⊢
    rw [hPolicy] at hStop
    exact hStop
  · unfold Tracker.core
    rw [hPolicy, hBook]

/- Still listeners do not move the clock. -/
theorem clock_heard
    (hStill : hear.Still)
    (hSome :
      (d.tracker.book.find d.tracker.now u.orderId).2 =
        some o) :
    (d.heard hear u).tracker.clock = d.tracker.clock := by
  have hCore := (Tracker.receive_known hSome).1
  have hHeard :
      (d.heard hear u).tracker.clock =
        (d.tracker.receive u).1.clock :=
    view_publishAll (fun _ _ => rfl) hStill.clock_eq _ _
  exact hHeard.trans (Tracker.clock_of_core hCore)

/- Under still listeners the order is retired at once. -/
theorem process_still
    (hStill : hear.Still)
    (hSome :
      (d.tracker.book.find d.tracker.now u.orderId).2 =
        some o) :
    let response :=
      o.respond u d.tracker.clock.now d.tracker.policy
    let written :=
      (d.tracker.book.find d.tracker.now u.orderId).1.write
        response.1
    (d.process hear u).2 = response.2.verdict ∧
      (d.process hear u).1.tracker.core =
        { d.tracker.core with
          book :=
            if response.2.retire then
              (written.stop d.tracker.now u.orderId).1
            else
              written } := by
  intro response written
  have hClock := clock_heard hStill hSome
  have hNow :
      (d.heard hear u).tracker.now = d.tracker.now :=
    congrArg Time.Clock.elapsed hClock
  rcases process_known hStill.quiet hSome with
    ⟨hVerdict, hCore⟩
  rw [hNow, hClock] at hCore
  exact ⟨hVerdict, hCore⟩

end Desk

end OrderWatch
