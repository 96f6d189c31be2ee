import OrderWatch.Proofs.Desk.Records

/-
  What is done with a tracker, one deed after the other.

  An update is processed in several steps, and between them
  the listeners may use the tracker as they like: look orders
  up, stop and start them, take in other updates.  Taken
  apart into deeds, a run of a desk is a single list, in
  which the receipt of an update and the retirement of its
  order are two deeds, with those of the listeners between.

  Main declarations:
    * `Deed`, `Tracker.after`, `Tracker.afterAll`
    * `Tracker.Decided`, `Tracker.decided_core`
    * `Tracker.steady_afterAll`, `Tracker.lasting_afterAll`
    * `Tracker.Reached`, `Tracker.Reached.own`
    * `Hearing.Does`, `Hearing.DoesSeen`
    * `Desk.deedsAlong`
    * `Desk.decided_run`, `Desk.core_run`
-/

namespace OrderWatch

------------------------------------------------------------
-- Deeds
------------------------------------------------------------

/- What can be done with a tracker in one step. -/
inductive Deed where
  | start (o : Order)
  | receive (u : Update)
  | stop (id : OrderId)
  | fetch (id : OrderId)
  | fetchRetired (id : OrderId)
  | purge
  | advance (nanos : Nat)
deriving DecidableEq

namespace Tracker

/- A tracker once a deed has been done. -/
def after (t : Tracker) : Deed → Tracker
  | .start o => t.start o
  | .receive u => (t.receive u).1
  | .stop id => (t.stop id).1
  | .fetch id => (t.fetch id).1
  | .fetchRetired id => (t.fetchRetired id).1
  | .purge => t.purge.1
  | .advance nanos => t.advance nanos

/- A tracker once some deeds have been done. -/
def afterAll (t : Tracker) (ds : List Deed) : Tracker :=
  ds.foldl after t

theorem afterAll_append
    (t : Tracker)
    (ds es : List Deed) :
    t.afterAll (ds ++ es) = (t.afterAll ds).afterAll es :=
  List.foldl_append

variable {t t' : Tracker}

/- The journal plays no part in what a deed does. -/
theorem core_after_congr
    (hSame : t'.core = t.core)
    (a : Deed) :
    (t'.after a).core = (t.after a).core := by
  have hBook : t'.book = t.book := book_of_core hSame
  have hClock : t'.clock = t.clock := clock_of_core hSame
  have hPolicy : t'.policy = t.policy := policy_of_core hSame
  have hNow : t'.now = t.now := now_of_core hSame
  cases a with
  | start o =>
      change (t'.start o).core = (t.start o).core
      rw [core_start, core_start, hSame, hBook]
  | receive u =>
      change (t'.receive u).1.core = (t.receive u).1.core
      cases hFound : (t.book.find t.now u.orderId).2 with
      | none =>
          have hFound' := hFound
          rw [← hBook, ← hNow] at hFound'
          rw [(receive_unknown hFound).1,
            (receive_unknown hFound').1, hSame, hBook, hNow]
      | some o =>
          have hFound' := hFound
          rw [← hBook, ← hNow] at hFound'
          rw [(receive_known hFound).1,
            (receive_known hFound').1, hSame, hBook, hNow,
            hClock, hPolicy]
  | stop id =>
      change (t'.stop id).1.core = (t.stop id).1.core
      rw [(core_stop t' id).1, (core_stop t id).1, hSame, hBook,
        hNow]
  | fetch id =>
      change (t'.fetch id).1.core = (t.fetch id).1.core
      rw [(core_fetch t' id).1, (core_fetch t id).1, hSame,
        hBook, hNow]
  | fetchRetired id =>
      change
        (t'.fetchRetired id).1.core = (t.fetchRetired id).1.core
      rw [(core_fetchRetired t' id).1, (core_fetchRetired t id).1,
        hSame, hBook, hNow]
  | purge =>
      change t'.purge.1.core = t.purge.1.core
      rw [(core_purge t').1, (core_purge t).1, hSame, hBook, hNow]
  | advance nanos =>
      change
        Core.mk t'.policy (t'.clock.advance nanos) t'.book =
          Core.mk t.policy (t.clock.advance nanos) t.book
      rw [hPolicy, hClock, hBook]

/-
  What can be seen of a tracker after a deed, if it goes by
  what was seen before.  Messages are not seen, and neither
  is it if a listener has failed.
-/
structure Decided
    {α : Type}
    (view : Tracker → α) : Prop where
  after_congr :
    ∀ {t t'}, view t' = view t →
      ∀ a, view (t'.after a) = view (t.after a)
  said :
    ∀ t level text details,
      view (t.say level text details) = view t
  failed :
    ∀ t topic,
      view (t.count (.listenerFailures topic) 1) = view t

theorem decided_core :
    Decided core where
  after_congr := core_after_congr
  said := fun _ _ _ _ => rfl
  failed := fun _ _ => rfl

section Decided

variable {α : Type} {view : Tracker → α}

theorem Decided.afterAll_congr
    (hDecided : Decided view)
    (hSame : view t' = view t)
    (ds : List Deed) :
    view (t'.afterAll ds) = view (t.afterAll ds) := by
  induction ds generalizing t t' with
  | nil => exact hSame
  | cons a ds ih => exact ih (hDecided.after_congr hSame a)

/-
  Two lists of deeds, done one after the other.  The second
  one is done with a tracker of which the same is seen.
-/
theorem Decided.afterAll_append
    (hDecided : Decided view)
    {t'' : Tracker}
    {ds es : List Deed}
    (hFirst : view t' = view (t.afterAll ds))
    (hSecond : view t'' = view (t'.afterAll es)) :
    view t'' = view (t.afterAll (ds ++ es)) := by
  rw [Tracker.afterAll_append, hSecond]
  exact hDecided.afterAll_congr hFirst es

end Decided

section Steady

variable {P : Book → Prop}

/- What the operations on books keep, the deeds keep. -/
theorem steady_after
    (hSteady : Book.Steady P)
    (h : P t.book)
    {a : Deed}
    (hStarted : ∀ o, a = .start o → P (t.book.start o)) :
    P (t.after a).book := by
  cases a with
  | start o => exact hStarted o rfl
  | receive u =>
      have hLooked : P (t.book.find t.now u.orderId).1 :=
        hSteady.find h
      change P (t.receive u).1.book
      cases hFound : (t.book.find t.now u.orderId).2 with
      | none =>
          rw [book_of_core (receive_unknown hFound).1]
          exact hLooked
      | some o =>
          rw [book_of_core (receive_known hFound).1]
          exact hSteady.write hLooked
  | stop id =>
      change P (t.stop id).1.book
      rw [book_of_core (core_stop t id).1]
      exact hSteady.stop h
  | fetch id => exact hSteady.find h
  | fetchRetired id => exact hSteady.findRetired h
  | purge =>
      change P t.purge.1.book
      rw [book_of_core (core_purge t).1]
      exact hSteady.purge h
  | advance nanos => exact h

/- So do lists of deeds, if only certain orders are started. -/
theorem steady_afterAll
    (hSteady : Book.Steady P)
    {allowed : Order → Prop}
    (hStart : ∀ {b o}, allowed o → P b → P (b.start o))
    (h : P t.book)
    {ds : List Deed}
    (hAllowed : ∀ o, .start o ∈ ds → allowed o) :
    P (t.afterAll ds).book := by
  induction ds generalizing t with
  | nil => exact h
  | cons a ds ih =>
      have hNext : P (t.after a).book := by
        apply steady_after hSteady h
        rintro o rfl
        exact hStart (hAllowed o List.mem_cons_self) h
      apply ih hNext
      intro o hMem
      exact hAllowed o (List.mem_cons_of_mem a hMem)

theorem lasting_afterAll
    (hLasting : Book.Lasting P)
    (h : P t.book)
    (ds : List Deed) :
    P (t.afterAll ds).book :=
  steady_afterAll hLasting.steady (fun _ => hLasting.start) h
    fun _ _ => trivial

end Steady

/- A tracker that some deeds have led to, up to its journal. -/
def Reached (t : Tracker) : Prop :=
  ∃ policy capacity ttl clock deeds,
    t.core =
      ((opening policy capacity ttl clock).afterAll deeds).core

theorem Reached.own
    (hReached : t.Reached) :
    t.book.All Order.Own := by
  rcases hReached with
    ⟨policy, capacity, ttl, clock, deeds, hHistory⟩
  rw [book_of_core hHistory]
  exact
    lasting_afterAll Book.lasting_own
      (Book.All.empty Order.Own capacity ttl) deeds

end Tracker

------------------------------------------------------------
-- Deeds of listeners
------------------------------------------------------------

variable {L μ : Type}

/-
  Listeners that do certain deeds when they are called, and
  nothing else with the tracker, save that they may note
  things in its journal.
-/
def Hearing.Does
    (hear : Hearing L μ)
    (deeds : L → Event → Desk L μ → List Deed) : Prop :=
  ∀ l e d,
    (hear l e d).1.tracker.core =
      (d.tracker.afterAll (deeds l e d)).core

/- Listeners that do them as far as can be seen. -/
def Hearing.DoesSeen
    {α : Type}
    (view : Tracker → α)
    (hear : Hearing L μ)
    (deeds : L → Event → Desk L μ → List Deed) : Prop :=
  ∀ l e d,
    view (hear l e d).1.tracker =
      view (d.tracker.afterAll (deeds l e d))

namespace Desk

section Deeds

variable (hear : Hearing L μ)
variable (deeds : L → Event → Desk L μ → List Deed)

/- What is done when one listener is called for an event. -/
def deedsOf (e : Event) (d : Desk L μ) : Listener L → List Deed
  | .log => []
  | .other _ l => deeds l e d

/- What is done when some listeners are called in turn. -/
def deedsOfAll
    (e : Event) : Desk L μ → List (Listener L) → List Deed
  | _, [] => []
  | d, l :: ls =>
      deedsOf deeds e d l ++ deedsOfAll e (deliver hear e d l) ls

/- What is done when an event is published. -/
def deedsFor (d : Desk L μ) (e : Event) : List Deed :=
  match d.sink with
  | .bus b => deedsOfAll hear deeds e d (b.subscribers e.topic)
  | .recording _ | .silent => []

/- What is done when some events are published. -/
def deedsForAll : Desk L μ → List Event → List Deed
  | _, [] => []
  | d, e :: events =>
      d.deedsFor hear deeds e ++
        deedsForAll (d.publish hear e) events

/-
  An update is received, the listeners are called, and its
  order may be retired.
-/
def deedsOn (d : Desk L μ) (u : Update) : List Deed :=
  let receipt := (d.tracker.receive u).2
  [.receive u]
    ++ (d.received u).deedsForAll hear deeds receipt.verdict.events
    ++ if receipt.retire then [.stop u.orderId] else []

/- What an action does, and what the listeners do for it. -/
def deedsIn (d : Desk L μ) : Action → List Deed
  | .start o => [.start o]
  | .update u => d.deedsOn hear deeds u
  | .stop id => [.stop id]
  | .fetch id => [.fetch id]
  | .fetchRetired id => [.fetchRetired id]
  | .purge | .sweep => [.purge]
  | .advance nanos => [.advance nanos]
  | .fetchActive _ | .activeOrders | .retiredOrders
  | .summary => []

/- What is done in a whole run. -/
def deedsAlong : Desk L μ → List Action → List Deed
  | _, [] => []
  | d, a :: as =>
      d.deedsIn hear deeds a ++
        deedsAlong (d.perform hear a).1 as

end Deeds

variable {hear : Hearing L μ} {d : Desk L μ}
variable {deeds : L → Event → Desk L μ → List Deed}

section Decided

variable {α : Type} {view : Tracker → α}

/- A failure is noted in the journal, which is not looked at. -/
theorem decided_noteFailure
    (hDecided : Tracker.Decided view)
    (d : Desk L μ)
    (name : String)
    (e : Event)
    (ending : Ending) :
    view (d.noteFailure name e ending).tracker =
      view d.tracker := by
  cases ending with
  | done => rfl
  | failed message =>
      exact
        (hDecided.failed _ e.topic).trans
          (hDecided.said d.tracker _ _ _)
  | panicked =>
      exact
        (hDecided.failed _ e.topic).trans
          (hDecided.said d.tracker _ _ _)

theorem decided_deliver
    (hDecided : Tracker.Decided view)
    (hDoes : hear.DoesSeen view deeds)
    (e : Event)
    (d : Desk L μ)
    (l : Listener L) :
    view (deliver hear e d l).tracker =
      view (d.tracker.afterAll (deedsOf deeds e d l)) := by
  cases l with
  | log => exact hDecided.said d.tracker _ _ _
  | other name l =>
      have hNoted :=
        decided_noteFailure hDecided (hear l e d).1 name e
          (hear l e d).2
      exact hNoted.trans (hDoes l e d)

theorem decided_publish
    (hDecided : Tracker.Decided view)
    (hDoes : hear.DoesSeen view deeds)
    (d : Desk L μ)
    (e : Event) :
    view (d.publish hear e).tracker =
      view (d.tracker.afterAll (d.deedsFor hear deeds e)) := by
  unfold publish deedsFor
  cases hSink : d.sink with
  | bus b =>
      clear hSink
      simp only
      induction b.subscribers e.topic generalizing d with
      | nil => rfl
      | cons l ls ih =>
          exact
            hDecided.afterAll_append
              (decided_deliver hDecided hDoes e d l)
              (ih (deliver hear e d l))
  | recording events => rfl
  | silent => rfl

theorem decided_publishAll
    (hDecided : Tracker.Decided view)
    (hDoes : hear.DoesSeen view deeds)
    (d : Desk L μ)
    (events : List Event) :
    view (d.publishAll hear events).tracker =
      view
        (d.tracker.afterAll
          (d.deedsForAll hear deeds events)) := by
  induction events generalizing d with
  | nil => rfl
  | cons e events ih =>
      exact
        hDecided.afterAll_append
          (decided_publish hDecided hDoes d e)
          (ih (d.publish hear e))

theorem decided_process
    (hDecided : Tracker.Decided view)
    (hDoes : hear.DoesSeen view deeds)
    (d : Desk L μ)
    (u : Update) :
    view (d.process hear u).1.tracker =
      view (d.tracker.afterAll (d.deedsOn hear deeds u)) := by
  have hReceived :
      view (d.received u).tracker =
        view (d.tracker.afterAll [.receive u]) :=
    rfl
  have hHeard :=
    hDecided.afterAll_append hReceived
      (decided_publishAll hDecided hDoes (d.received u)
        (d.tracker.receive u).2.verdict.events)
  rw [process_eq]
  cases hRetire : (d.tracker.receive u).2.retire with
  | false =>
      simp only [deedsOn, hRetire, Bool.false_eq_true, if_false,
        List.append_nil]
      exact hHeard
  | true =>
      simp only [deedsOn, hRetire, if_true]
      exact hDecided.afterAll_append hHeard rfl

/- A sweep is a purge, with messages. -/
theorem decided_sweep
    (hDecided : Tracker.Decided view)
    (t : Tracker) :
    view t.sweep = view t.purge.1 := by
  unfold Tracker.sweep
  simp only
  split
  · exact hDecided.said _ _ _ _
  · exact (hDecided.said _ _ _ _).trans (hDecided.said _ _ _ _)

/- An action does with the tracker what its deeds do. -/
theorem decided_perform
    (hDecided : Tracker.Decided view)
    (hDoes : hear.DoesSeen view deeds)
    (d : Desk L μ)
    (a : Action) :
    view (d.perform hear a).1.tracker =
      view (d.tracker.afterAll (d.deedsIn hear deeds a)) := by
  cases a with
  | update u => exact decided_process hDecided hDoes d u
  | sweep => exact decided_sweep hDecided d.tracker
  | _ => rfl

/- So does a run. -/
theorem decided_run
    (hDecided : Tracker.Decided view)
    (hDoes : hear.DoesSeen view deeds)
    (d : Desk L μ)
    (as : List Action) :
    view (d.run hear as).1.tracker =
      view
        (d.tracker.afterAll (d.deedsAlong hear deeds as)) := by
  induction as generalizing d with
  | nil => rfl
  | cons a as ih =>
      exact
        hDecided.afterAll_append
          (decided_perform hDecided hDoes d a)
          (ih (d.perform hear a).1)

end Decided

theorem core_deliver
    (hDoes : hear.Does deeds)
    (e : Event)
    (d : Desk L μ)
    (l : Listener L) :
    (deliver hear e d l).tracker.core =
      (d.tracker.afterAll (deedsOf deeds e d l)).core :=
  decided_deliver Tracker.decided_core hDoes e d l

theorem core_run
    (hDoes : hear.Does deeds)
    (d : Desk L μ)
    (as : List Action) :
    (d.run hear as).1.tracker.core =
      (d.tracker.afterAll (d.deedsAlong hear deeds as)).core :=
  decided_run Tracker.decided_core hDoes d as

/- Every run leads to a tracker, whatever the listeners do. -/
theorem reached_run
    (hDoes : hear.Does deeds)
    (policy : TerminalPolicy)
    (capacity ttl : Nat)
    (clock : Time.Clock)
    (sink : Sink L)
    (memory : μ)
    (as : List Action) :
    ((opening policy capacity ttl clock sink memory).run hear
      as).1.tracker.Reached :=
  ⟨policy, capacity, ttl, clock, _, core_run hDoes _ as⟩

end Desk

end OrderWatch
