import OrderWatch.Bus
import OrderWatch.Tracker

/-
  A tracker together with those who hear its events.

  A listener is called for one event at a time and may do
  with the desk whatever it likes: read it, stop or start
  orders, subscribe others, publish on its own.  So what a
  listener does is a function on desks; a desk also has a
  part of its own for what listeners remember.

  An event is delivered to those who have been subscribed
  when its publication began, one after the other.  One that
  fails is noted, and the next one is called all the same.

  Key definitions:
    * `Sink`
    * `Desk`
    * `Hearing`
    * `Desk.publish`, `Desk.publishAll`
    * `Desk.process`
-/

namespace OrderWatch

------------------------------------------------------------
-- Listeners
------------------------------------------------------------

/- One who listens: the event log, or anybody else. -/
inductive Listener (L : Type) where
  | log
  | other (name : String) (l : L)
deriving DecidableEq, Repr

/- Where events are published. -/
inductive Sink (L : Type) where
  | bus (b : Bus (Listener L))
  /- Events are only kept, the first one first. -/
  | recording (events : List Event)
  | silent

namespace Sink

/- A bus on which the event log listens to all topics. -/
def logged (L : Type) : Sink L :=
  .bus (Bus.subscribeAll ∅ .log).1

end Sink

/- How the call of a listener ends. -/
inductive Ending where
  | done
  | failed (message : String)
  | panicked
deriving DecidableEq, Repr, Inhabited

structure Desk (L μ : Type) where
  tracker : Tracker
  sink : Sink L
  /- What the listeners remember. -/
  memory : μ

/- What listeners do with an event. -/
abbrev Hearing (L μ : Type) :=
  L → Event → Desk L μ → Desk L μ × Ending

namespace Desk

variable {L μ : Type}

------------------------------------------------------------
-- The event log
------------------------------------------------------------

/- The details of an event in the event log. -/
def details : Event → List (String × String)
  | .created _ e =>
      [("trading_pair", e.pair),
        ("amount", toString e.amount),
        ("price", toString e.price)]
  | .filled e =>
      [("trading_pair", e.pair),
        ("price", toString e.price),
        ("amount", toString e.amount),
        ("fee", e.fee.text)]
  | .completed _ e =>
      [("base_amount", toString e.base),
        ("quote_amount", toString e.quote),
        ("fee", toString e.fee),
        ("fee_asset", e.feeAsset)]
  | .cancelled _ | .failed _ => []

/- Note an event in the journal. -/
def logEvent (d : Desk L μ) (e : Event) : Desk L μ :=
  { d with
    tracker :=
      d.tracker.say .debug "Market event"
        (("event", Worded.word e.topic)
          :: ("client_order_id", e.orderId) :: details e) }

------------------------------------------------------------
-- Publishing
------------------------------------------------------------

/- Note that a listener has not come to its end. -/
def noteFailure
    (d : Desk L μ)
    (name : String)
    (e : Event)
    (ending : Ending) : Desk L μ :=
  let who :=
    [("listener", name), ("event", Worded.word e.topic),
      ("client_order_id", e.orderId)]
  match ending with
  | .done => d
  | .failed message =>
      let error :=
        s!"Listener '{name}' failed to handle {e.topic}: {message}"
      { d with
        tracker :=
          (d.tracker.say .warn "Event listener failed"
            (who ++ [("error", error)])).count
              (.listenerFailures e.topic) 1 }
  | .panicked =>
      { d with
        tracker :=
          (d.tracker.say .error "Event listener panicked"
            who).count (.listenerFailures e.topic) 1 }

/- Call one listener for an event. -/
def deliver
    (hear : Hearing L μ)
    (e : Event)
    (d : Desk L μ) : Listener L → Desk L μ
  | .log => d.logEvent e
  | .other name l =>
      let (d, ending) := hear l e d
      d.noteFailure name e ending

/- Publish an event. -/
def publish
    (hear : Hearing L μ)
    (d : Desk L μ)
    (e : Event) : Desk L μ :=
  match d.sink with
  | .bus b => (b.subscribers e.topic).foldl (deliver hear e) d
  | .recording events =>
      { d with sink := .recording (events ++ [e]) }
  | .silent => d

/- Publish events, one after the other. -/
def publishAll
    (hear : Hearing L μ)
    (d : Desk L μ)
    (events : List Event) : Desk L μ :=
  events.foldl (publish hear) d

------------------------------------------------------------
-- Updates
------------------------------------------------------------

/-
  Process an update: bring the record up to date, publish the
  events, and then retire the order if the update has left it
  done.
-/
def process
    (hear : Hearing L μ)
    (d : Desk L μ)
    (u : Update) : Desk L μ × Verdict :=
  let (tracker, receipt) := d.tracker.receive u
  let d := { d with tracker }
  match receipt.verdict with
  | .applied events =>
      let d := d.publishAll hear events
      if receipt.retire then
        ({ d with tracker := (d.tracker.stop u.orderId).1 },
          receipt.verdict)
      else
        (d, receipt.verdict)
  | _ => (d, receipt.verdict)

end Desk

end OrderWatch
