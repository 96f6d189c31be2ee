import OrderWatch.Proofs.Book.Simulation
import OrderWatch.Proofs.Desk.Run

/-
  Desks that are used alike.

  Listeners are detached if they leave the book and the
  policy of the tracker alone and do not look at them, nor at
  the journal: what they do to the clock, to the sink and to
  what they remember depends on these alone.  Two desks with
  related books and the same surroundings are then related
  again after any action other than a purge, which both
  answer alike.

  Main declarations:
    * `Desk.SameOutside`, `Desk.SameAround`
    * `Hearing.Detached`
    * `Desk.displaced`
    * `Action.purges`
    * `Desk.Related`, `Desk.LooksLike`
    * `Desk.Related.process`
    * `Desk.Related.perform`
    * `Desk.Along`, `Desk.Steady`
-/

namespace OrderWatch

variable {L μ : Type}

------------------------------------------------------------
-- Around the book
------------------------------------------------------------

/- Two desks with the same sink and the same memory. -/
structure Desk.SameOutside (d d' : Desk L μ) : Prop where
  sink_eq : d'.sink = d.sink
  memory_eq : d'.memory = d.memory

/- Two desks that go by the same clock as well. -/
structure Desk.SameAround (d d' : Desk L μ) : Prop
    extends d.SameOutside d' where
  clock_eq : d'.tracker.clock = d.tracker.clock

/-
  Quiet listeners that do not look at the tracker, save at
  its clock.
-/
structure Hearing.Detached (hear : Hearing L μ) : Prop where
  quiet : hear.Quiet
  around :
    ∀ l e d d', d.SameAround d' →
      (hear l e d).1.SameAround (hear l e d').1

namespace Desk

variable {hear : Hearing L μ} {d d' e : Desk L μ}

namespace SameOutside

theorem refl
    (d : Desk L μ) :
    d.SameOutside d where
  sink_eq := rfl
  memory_eq := rfl

theorem symm
    (h : d.SameOutside d') :
    d'.SameOutside d where
  sink_eq := h.sink_eq.symm
  memory_eq := h.memory_eq.symm

theorem trans
    (hFirst : d.SameOutside d')
    (hSecond : d'.SameOutside e) :
    d.SameOutside e where
  sink_eq := hSecond.sink_eq.trans hFirst.sink_eq
  memory_eq := hSecond.memory_eq.trans hFirst.memory_eq

end SameOutside

namespace SameAround

theorem refl
    (d : Desk L μ) :
    d.SameAround d where
  toSameOutside := .refl d
  clock_eq := rfl

theorem symm
    (h : d.SameAround d') :
    d'.SameAround d where
  toSameOutside := h.toSameOutside.symm
  clock_eq := h.clock_eq.symm

theorem trans
    (hFirst : d.SameAround d')
    (hSecond : d'.SameAround e) :
    d.SameAround e where
  toSameOutside :=
    hFirst.toSameOutside.trans hSecond.toSameOutside
  clock_eq := hSecond.clock_eq.trans hFirst.clock_eq

end SameAround

/- A failure is noted in the journal only. -/
theorem around_noteFailure
    (d : Desk L μ)
    (name : String)
    (e : Event)
    (ending : Ending) :
    d.SameAround (d.noteFailure name e ending) := by
  unfold noteFailure
  split
  · exact SameAround.refl d
  · exact ⟨⟨rfl, rfl⟩, rfl⟩
  · exact ⟨⟨rfl, rfl⟩, rfl⟩

namespace SameAround

theorem deliver
    (hDetached : hear.Detached)
    (h : d.SameAround d')
    (e : Event)
    (l : Listener L) :
    (deliver hear e d l).SameAround (deliver hear e d' l) := by
  cases l with
  | log => exact ⟨⟨h.sink_eq, h.memory_eq⟩, h.clock_eq⟩
  | other name l =>
      have hHeard := hDetached.around l e d d' h
      have hLeft :=
        around_noteFailure (hear l e d).1 name e
          (hear l e d).2
      have hRight :=
        around_noteFailure (hear l e d').1 name e
          (hear l e d').2
      exact (hLeft.symm.trans hHeard).trans hRight

/- An event reaches the same listeners. -/
theorem publish
    (hDetached : hear.Detached)
    (h : d.SameAround d')
    (e : Event) :
    (d.publish hear e).SameAround (d'.publish hear e) := by
  unfold Desk.publish
  rw [h.sink_eq]
  split
  · rename_i b hSink
    clear hSink
    induction b.subscribers e.topic generalizing d d' with
    | nil => exact h
    | cons l ls ih => exact ih (h.deliver hDetached e l)
  · exact ⟨⟨rfl, h.memory_eq⟩, h.clock_eq⟩
  · exact h

theorem publishAll
    (hDetached : hear.Detached)
    (h : d.SameAround d')
    (events : List Event) :
    (d.publishAll hear events).SameAround
      (d'.publishAll hear events) := by
  unfold Desk.publishAll
  induction events generalizing d d' with
  | nil => exact h
  | cons e events ih => exact ih (h.publish hDetached e)

end SameAround

------------------------------------------------------------
-- Updates
------------------------------------------------------------

variable {u : Update}

/- The record is brought up to date in no time. -/
theorem clock_received
    (d : Desk L μ)
    (u : Update) :
    (d.received u).tracker.clock = d.tracker.clock := by
  cases hFound :
      (d.tracker.book.find d.tracker.now u.orderId).2 with
  | none =>
      exact
        Tracker.clock_of_core (Tracker.receive_unknown hFound).1
  | some o =>
      exact
        Tracker.clock_of_core (Tracker.receive_known hFound).1

theorem now_received
    (d : Desk L μ)
    (u : Update) :
    (d.received u).tracker.now = d.tracker.now :=
  congrArg Time.Clock.elapsed (clock_received d u)

/- An order is retired after the listeners have been heard. -/
theorem around_process
    (hear : Hearing L μ)
    (d : Desk L μ)
    (u : Update) :
    (d.heard hear u).SameAround (d.process hear u).1 := by
  rw [process_eq]
  split
  · have hStop :=
      ((d.heard hear u).tracker.core_stop u.orderId).1
    exact ⟨⟨rfl, rfl⟩, Tracker.clock_of_core hStop⟩
  · exact SameAround.refl _

/- The listeners hear of two updates with the same verdict. -/
theorem SameAround.heard
    (hDetached : hear.Detached)
    (h : d.SameAround d')
    (hVerdict :
      (d'.process hear u).2 = (d.process hear u).2) :
    (d.heard hear u).SameAround (d'.heard hear u) := by
  have hReceived : (d.received u).SameAround (d'.received u) :=
    { sink_eq := h.sink_eq
      memory_eq := h.memory_eq
      clock_eq := by
        rw [clock_received, clock_received, h.clock_eq] }
  rw [verdict_process, verdict_process] at hVerdict
  unfold Desk.heard
  rw [hVerdict]
  exact hReceived.publishAll hDetached _

/- Two desks that find the same record answer alike. -/
theorem SameAround.process
    (hDetached : hear.Detached)
    (h : d.SameAround d')
    (hPolicy : d'.tracker.policy = d.tracker.policy)
    (hSame :
      (d'.tracker.book.find d'.tracker.now u.orderId).2 =
        (d.tracker.book.find d.tracker.now u.orderId).2) :
    (d'.process hear u).2 = (d.process hear u).2 ∧
      (d.process hear u).1.SameAround
        (d'.process hear u).1 := by
  have hAlike :
      (d'.process hear u).2 = (d.process hear u).2 := by
    cases hFound :
        (d.tracker.book.find d.tracker.now u.orderId).2 with
    | none =>
        rw [(process_unknown hear hFound).2,
          (process_unknown hear (hSame.trans hFound)).2]
    | some o =>
        have hQuiet := hDetached.quiet
        rw [(process_known hQuiet hFound).1,
          (process_known hQuiet (hSame.trans hFound)).1,
          h.clock_eq, hPolicy]
  have hHeard := h.heard hDetached hAlike
  have hAround :=
    ((around_process hear d u).symm.trans hHeard).trans
      (around_process hear d' u)
  exact ⟨hAlike, hAround⟩

/- How many retired orders an action pushes out. -/
def displaced
    (hear : Hearing L μ)
    (d : Desk L μ) : Action → Nat
  | .stop id => (d.tracker.book.stop d.tracker.now id).2.getD 0
  | .update u =>
      let t := (d.heard hear u).tracker
      if (d.tracker.receive u).2.retire then
        (t.book.stop t.now u.orderId).2.getD 0
      else
        0
  | _ => 0

/- An update pushes out what retiring its order does. -/
theorem displaced_update
    (hQuiet : hear.Quiet)
    {o : Order}
    (hSome :
      (d.tracker.book.find d.tracker.now u.orderId).2 =
        some o) :
    let response :=
      o.respond u d.tracker.clock.now d.tracker.policy
    let written :=
      (d.tracker.book.find d.tracker.now u.orderId).1.write
        response.1
    d.displaced hear (.update u) =
      if response.2.retire then
        (written.stop (d.heard hear u).tracker.now
          u.orderId).2.getD 0
      else
        0 := by
  intro response written
  have hBook : (d.heard hear u).tracker.book = written :=
    book_heard hQuiet hSome
  have hReceipt : (d.tracker.receive u).2 = response.2 :=
    (Tracker.receive_known hSome).2
  simp only [displaced, hReceipt, hBook]

end Desk

------------------------------------------------------------
-- Related desks
------------------------------------------------------------

/- Whether an action does nothing but purge the cache. -/
def Action.purges : Action → Bool
  | .purge | .sweep => true
  | _ => false

/- Two desks whose books are related. -/
structure Desk.Related
    (Q :
      Cache OrderId Order → Cache OrderId Order → Nat → Prop)
    (d d' : Desk L μ) : Prop where
  policy_eq : d'.tracker.policy = d.tracker.policy
  around : d.SameAround d'
  book :
    Book.Related Q d.tracker.book d'.tracker.book d.tracker.now

/- Two desks that cannot be told apart by what they know. -/
structure Desk.LooksLike (d d' : Desk L μ) : Prop where
  policy_eq : d'.tracker.policy = d.tracker.policy
  clock_eq : d'.tracker.clock = d.tracker.clock
  active_eq : d'.tracker.book.active = d.tracker.book.active
  retired_eq :
    d'.tracker.book.retiredOrders d'.tracker.now =
      d.tracker.book.retiredOrders d.tracker.now
  sink_eq : d'.sink = d.sink
  memory_eq : d'.memory = d.memory

namespace Desk.Related

variable {Allowed : Nat → Prop}
variable
  {Q : Cache OrderId Order → Cache OrderId Order → Nat → Prop}
variable {hear : Hearing L μ} {d d' : Desk L μ}

theorem now_eq
    (h : Related Q d d') :
    d'.tracker.now = d.tracker.now :=
  congrArg Time.Clock.elapsed h.around.clock_eq

theorem looksLike
    (hSim : Cache.Simulation Allowed Q)
    (h : Related Q d d') :
    d.LooksLike d' where
  policy_eq := h.policy_eq
  clock_eq := h.around.clock_eq
  active_eq := h.book.active_eq
  retired_eq := by
    rw [h.now_eq, h.book.retiredOrders_eq hSim]
  sink_eq := h.around.sink_eq
  memory_eq := h.around.memory_eq

/- Desks are related by the cores of their trackers. -/
theorem of_core
    {policy policy' : TerminalPolicy}
    {clock clock' : Time.Clock}
    {b b' : Book}
    (hCore : d.tracker.core = ⟨policy, clock, b⟩)
    (hCore' : d'.tracker.core = ⟨policy', clock', b'⟩)
    (hPolicy : policy' = policy)
    (hBook : Book.Related Q b b' clock.elapsed)
    (hAround : d.SameAround d') :
    Related Q d d' := by
  rcases Tracker.Core.mk.inj hCore with ⟨rfl, rfl, rfl⟩
  rcases Tracker.Core.mk.inj hCore' with ⟨rfl, _, rfl⟩
  exact ⟨hPolicy, hAround, hBook⟩

/- Trackers that have changed their books only. -/
theorem withTracker
    (h : Related Q d d')
    {t t' : Tracker}
    {b b' : Book}
    (hCore : t.core = { d.tracker.core with book := b })
    (hCore' : t'.core = { d'.tracker.core with book := b' })
    (hBook : Book.Related Q b b' d.tracker.now) :
    Related Q (d.withTracker t) (d'.withTracker t') := by
  have hClock := Tracker.clock_of_core hCore
  have hClock' := Tracker.clock_of_core hCore'
  exact
    of_core hCore hCore' h.policy_eq hBook
      { sink_eq := h.around.sink_eq
        memory_eq := h.around.memory_eq
        clock_eq :=
          hClock'.trans (h.around.clock_eq.trans hClock.symm) }

/- An update is taken in by both desks. -/
theorem process
    (hSim : Cache.Simulation Allowed Q)
    (hDetached : hear.Detached)
    (h : Related Q d d')
    {u : Update}
    (hAllowed : Allowed (d.displaced hear (.update u)))
    (hLater :
      d.tracker.now ≤ (d.process hear u).1.tracker.now) :
    Related Q (d.process hear u).1 (d'.process hear u).1 ∧
      (d'.process hear u).2 = (d.process hear u).2 := by
  have hQuiet := hDetached.quiet
  rcases h.book.find hSim u.orderId with ⟨hLooked, hSame⟩
  have hSame' :
      (d'.tracker.book.find d'.tracker.now u.orderId).2 =
        (d.tracker.book.find d.tracker.now u.orderId).2 := by
    rw [h.now_eq]
    exact hSame
  rcases h.around.process hDetached h.policy_eq hSame' with
    ⟨hAlike, hAround⟩
  refine ⟨?_, hAlike⟩
  cases hFound :
      (d.tracker.book.find d.tracker.now u.orderId).2 with
  | none =>
      have hFound' := hSame.trans hFound
      rw [← h.now_eq] at hFound'
      have hCore := (process_unknown hear hFound).1
      have hCore' := (process_unknown hear hFound').1
      rw [h.now_eq] at hCore'
      exact of_core hCore hCore' h.policy_eq hLooked hAround
  | some o =>
      have hFound' := hSame.trans hFound
      rw [← h.now_eq] at hFound'
      have hCore := (process_known hQuiet hFound).2
      have hCore' := (process_known hQuiet hFound').2
      have hHeard := h.around.heard hDetached hAlike
      have hNow' :
          (d'.heard hear u).tracker.now =
            (d.heard hear u).tracker.now :=
        congrArg Time.Clock.elapsed hHeard.clock_eq
      rw [h.now_eq, hNow', h.around.clock_eq,
        h.policy_eq] at hCore'
      rw [displaced_update hQuiet hFound] at hAllowed
      have hNow :
          (d.process hear u).1.tracker.now =
            (d.heard hear u).tracker.now :=
        Tracker.now_of_core hCore
      rw [hNow] at hLater
      refine of_core hCore hCore' rfl ?_ hAround
      generalize o.respond u d.tracker.clock.now
        d.tracker.policy = response at hAllowed ⊢
      have hWritten :=
        (hLooked.later hSim hLater).write hSim response.1
      cases hRetire : response.2.retire with
      | false => exact hWritten
      | true =>
          rw [hRetire, if_pos rfl] at hAllowed
          exact (hWritten.stop hSim hAllowed).1

/- One action other than a purge is done with both desks. -/
theorem perform
    (hSim : Cache.Simulation Allowed Q)
    (hDetached : hear.Detached)
    (h : Related Q d d')
    {a : Action}
    (hOther : a.purges = false)
    (hAllowed : Allowed (d.displaced hear a))
    (hLater :
      d.tracker.now ≤ (d.perform hear a).1.tracker.now) :
    Related Q (d.perform hear a).1 (d'.perform hear a).1 ∧
      (d'.perform hear a).2 = (d.perform hear a).2 := by
  cases a with
  | start o =>
      refine ⟨?_, rfl⟩
      exact
        h.withTracker (d.tracker.core_start o)
          (d'.tracker.core_start o) (h.book.start o)
  | update u =>
      rcases h.process hSim hDetached hAllowed hLater with
        ⟨hNext, hVerdict⟩
      exact ⟨hNext, congrArg Answer.verdict hVerdict⟩
  | stop id =>
      rcases d.tracker.core_stop id with ⟨hCore, hAnswer⟩
      rcases d'.tracker.core_stop id with ⟨hCore', hAnswer'⟩
      rw [h.now_eq] at hCore' hAnswer'
      rcases h.book.stop hSim hAllowed with ⟨hBook, hActive⟩
      refine ⟨h.withTracker hCore hCore' hBook, ?_⟩
      exact
        congrArg Answer.stopped
          (hAnswer'.trans (hActive.trans hAnswer.symm))
  | fetch id =>
      rcases d.tracker.core_fetch id with ⟨hCore, hAnswer⟩
      rcases d'.tracker.core_fetch id with ⟨hCore', hAnswer'⟩
      rw [h.now_eq] at hCore' hAnswer'
      rcases h.book.find hSim id with ⟨hBook, hFound⟩
      refine ⟨h.withTracker hCore hCore' hBook, ?_⟩
      exact
        congrArg Answer.order
          (hAnswer'.trans (hFound.trans hAnswer.symm))
  | fetchActive id =>
      refine ⟨h, congrArg Answer.order ?_⟩
      unfold Tracker.fetchActive
      rw [h.book.active_eq]
  | fetchRetired id =>
      rcases d.tracker.core_fetchRetired id with
        ⟨hCore, hAnswer⟩
      rcases d'.tracker.core_fetchRetired id with
        ⟨hCore', hAnswer'⟩
      rw [h.now_eq] at hCore' hAnswer'
      rcases h.book.findRetired hSim id with ⟨hBook, hFound⟩
      refine ⟨h.withTracker hCore hCore' hBook, ?_⟩
      exact
        congrArg Answer.order
          (hAnswer'.trans (hFound.trans hAnswer.symm))
  | activeOrders =>
      refine ⟨h, congrArg Answer.orders ?_⟩
      unfold Book.activeOrders
      rw [h.book.active_eq]
  | retiredOrders =>
      refine ⟨h, congrArg Answer.orders ?_⟩
      rw [h.now_eq, h.book.retiredOrders_eq hSim]
  | summary =>
      refine ⟨h, congrArg Answer.summary ?_⟩
      unfold Tracker.summary Book.activeOrders
      rw [h.now_eq, h.around.clock_eq, h.book.active_eq,
        h.book.retiredOrders_eq hSim]
  | purge => contradiction
  | sweep => contradiction
  | advance nanos =>
      refine ⟨?_, rfl⟩
      exact
        { policy_eq := h.policy_eq
          around :=
            { sink_eq := h.around.sink_eq
              memory_eq := h.around.memory_eq
              clock_eq :=
                congrArg (·.advance nanos) h.around.clock_eq }
          book := h.book.later hSim hLater }

end Desk.Related

------------------------------------------------------------
-- Runs
------------------------------------------------------------

namespace Desk

variable {hear : Hearing L μ} {d : Desk L μ}

/- Every action of a run has a property where it is done. -/
def Along
    (hear : Hearing L μ)
    (P : Desk L μ → Action → Prop) :
    Desk L μ → List Action → Prop
  | _, [] => True
  | d, a :: as => P d a ∧ Along hear P (d.perform hear a).1 as

theorem along_append
    {P : Desk L μ → Action → Prop}
    {as bs : List Action} :
    Along hear P d (as ++ bs) ↔
      Along hear P d as ∧ Along hear P (d.run hear as).1 bs := by
  induction as generalizing d with
  | nil => simp [Along, run]
  | cons a as ih =>
      change
        P d a ∧ Along hear P (d.perform hear a).1 (as ++ bs) ↔ _
      rw [ih, ← and_assoc]
      rfl

/- The clock does not go back during a run. -/
def Steady
    (hear : Hearing L μ)
    (d : Desk L μ)
    (as : List Action) : Prop :=
  Along hear
    (fun d a =>
      d.tracker.now ≤ (d.perform hear a).1.tracker.now)
    d as

theorem now_le_run
    {as : List Action}
    (hSteady : Steady hear d as) :
    d.tracker.now ≤ (d.run hear as).1.tracker.now := by
  induction as generalizing d with
  | nil => exact le_refl d.tracker.now
  | cons a as ih =>
      rcases hSteady with ⟨hFirst, hRest⟩
      exact hFirst.trans (ih hRest)

end Desk

end OrderWatch
