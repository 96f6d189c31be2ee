import OrderWatch.Book
import OrderWatch.Event.Emission
import OrderWatch.Journal
import OrderWatch.Time.Clock
import OrderWatch.Tracker.Verdict

/-
  A tracker of orders.

  It keeps the book of orders under a clock, and notes in its
  journal what it does.  An update is taken in two steps, so
  that its events can be published in between: `receive`
  brings the record up to date, and afterwards `stop` retires
  the order if it is done.

  Key definitions:
    * `Tracker`
    * `Tracker.start`, `Tracker.stop`
    * `Tracker.receive`
    * `Tracker.purge`, `Tracker.sweep`
    * `Tracker.summary`
-/

namespace OrderWatch

structure Tracker where
  policy : TerminalPolicy
  clock : Time.Clock
  book : Book
  journal : Journal

namespace Tracker

/- A tracker without orders. -/
def opening
    (policy : TerminalPolicy)
    (capacity ttl : Nat)
    (clock : Time.Clock) : Tracker :=
  { policy, clock, book := .empty capacity ttl, journal := ∅ }

/- The time by which the cache goes. -/
def now (t : Tracker) : Nat :=
  t.clock.elapsed

/- Let time pass. -/
def advance (t : Tracker) (nanos : Nat) : Tracker :=
  { t with clock := t.clock.advance nanos }

------------------------------------------------------------
-- Journal
------------------------------------------------------------

def say
    (t : Tracker)
    (level : Level)
    (text : String)
    (details : List (String × String)) : Tracker :=
  { t with journal := t.journal.say level text details }

def count
    (t : Tracker)
    (c : Counter)
    (n : Nat) : Tracker :=
  { t with journal := t.journal.count c n }

/- Note how many orders are active and how many retired. -/
def measure (t : Tracker) : Tracker :=
  let j := t.journal.measure .activeOrders t.book.activeCount
  { t with
    journal :=
      j.measure .cachedOrders (t.book.retiredCount t.now) }

------------------------------------------------------------
-- Orders
------------------------------------------------------------

/- Track an order from now on. -/
def start (t : Tracker) (o : Order) : Tracker :=
  let t :=
    t.say .debug "Started tracking order"
      [("client_order_id", o.id), ("trading_pair", o.pair)]
  { t with book := t.book.start o }.measure

/- Retire an order; the answer is whether it was active. -/
def stop (t : Tracker) (id : OrderId) : Tracker × Bool :=
  match t.book.stop t.now id with
  | (book, some dropped) =>
      let t :=
        { t with book }.say .debug "Stopped tracking order"
          [("client_order_id", id)]
      ((t.count .cacheEvictions dropped).measure, true)
  | (_, none) => (t, false)

/- An order that is active or retired. -/
def fetch (t : Tracker) (id : OrderId) : Tracker × Option Order :=
  let (book, o?) := t.book.find t.now id
  ({ t with book }, o?)

def fetchActive (t : Tracker) (id : OrderId) : Option Order :=
  t.book.active[id]?

def fetchRetired
    (t : Tracker)
    (id : OrderId) : Tracker × Option Order :=
  let (book, o?) := t.book.findRetired t.now id
  ({ t with book }, o?)

/- Drop the retired orders that have expired. -/
def purge (t : Tracker) : Tracker × Nat :=
  let (book, dropped) := t.book.purge t.now
  let t := { t with book }
  if dropped = 0 then
    (t, dropped)
  else
    ((t.count .cacheEvictions dropped).measure, dropped)

/- A purge by the sweeper, which is then shut down. -/
def sweep (t : Tracker) : Tracker :=
  let (t, dropped) := t.purge
  let t :=
    if dropped = 0 then
      t
    else
      t.say .debug "Swept expired orders from cache"
        [("purged", toString dropped)]
  t.say .info "Cache sweeper shutting down" []

/- The orders known at some time. -/
structure Summary where
  active : List OrderId
  retired : List OrderId
  /- Milliseconds since the start of 1970. -/
  time : Int
deriving DecidableEq, Repr

def summary (t : Tracker) : Summary :=
  { active := t.book.activeOrders.map Prod.fst
    retired := (t.book.retiredOrders t.now).map Prod.fst
    time := t.clock.now.millis }

------------------------------------------------------------
-- Updates
------------------------------------------------------------

/- What an update has led to, before anything is published. -/
structure Receipt where
  verdict : Verdict
  /- Whether the order is to be retired after publishing. -/
  retire : Bool
deriving DecidableEq, Repr

/- An update that leads to nothing further. -/
def Receipt.closed (v : Verdict) : Receipt :=
  ⟨v, false⟩

/- What is said about an order when an event is published. -/
def announcement (o : Order) : Event → String
  | .created _ _ =>
      s!"Created {o.kind} {o.side} order {o.id} "
        ++ s!"for {o.amount} {o.pair}."
  | .filled _ =>
      s!"The {o.side} order {o.id} amounting to "
        ++ s!"{o.executedBase}/{o.amount} {o.baseAsset} "
        ++ "has been filled."
  | .completed _ _ =>
      s!"{o.side} order {o.id} completely filled."
  | .cancelled _ => s!"Successfully cancelled order {o.id}."
  | .failed _ => s!"Order {o.id} has failed."

/- Note the events of an update. -/
def announce
    (t : Tracker)
    (o : Order)
    (events : List Event) : Tracker :=
  events.foldl
    (fun t e =>
      (t.say .info (announcement o e)
        [("client_order_id", o.id)]).count
          (.eventsEmitted e.topic) 1)
    t

/- An update for an order that is not known. -/
def unknown (t : Tracker) (u : Update) : Tracker × Receipt :=
  let t :=
    t.say .warn s!"Order {u.orderId} no longer being tracked"
      [("client_order_id", u.orderId),
        ("channel", Worded.word u.channel)]
  (t.count (.unknownOrders u.channel) 1,
    .closed (.ignored (.unknownOrder u.orderId)))

/- An update that is not newer than the last one. -/
def stale
    (t : Tracker)
    (o : Order)
    (u : Update)
    (last : Nat) : Tracker × Receipt :=
  let t :=
    t.say .debug "Ignoring stale update"
      [("client_order_id", o.id),
        ("channel", Worded.word u.channel),
        ("sequence", toString u.sequence),
        ("last_sequence", toString last)]
  (t.count (.staleUpdates u.channel) 1,
    .closed (.ignored
      (.staleUpdate o.id u.channel u.sequence last)))

/- An update that the record refuses. -/
def rejected
    (t : Tracker)
    (o : Order)
    (u : Update)
    (reason : Refusal) : Tracker × Receipt :=
  let t :=
    t.say .warn "Rejected update"
      [("client_order_id", o.id),
        ("channel", Worded.word u.channel),
        ("sequence", toString u.sequence),
        ("reason", reason.message)]
  (t.count (.rejectedUpdates u.channel reason.code) 1,
    .closed (.ignored (.ofRefusal o.id u.channel reason)))

/- An update that has changed the record. -/
def applied
    (t : Tracker)
    (before : Snapshot)
    (o : Order)
    (u : Update) : Tracker × Receipt :=
  match o.eventsSince before u.channel t.clock.now t.policy with
  | .error why => (t, .closed (.broken why))
  | .ok events =>
      let t := t.announce o events
      let o := if events.any Event.isTerminal then o.announce else o
      ({ t with book := t.book.write o },
        ⟨.applied events, o.isDone⟩)

/-
  Bring the record of an order up to date.  What the update
  has written stays, even where it is broken off.
-/
def receive (t : Tracker) (u : Update) : Tracker × Receipt :=
  match t.fetch u.orderId with
  | (t, none) => t.unknown u
  | (t, some before) =>
      let (o, outcome) := before.apply u
      let t := { t with book := t.book.write o }
      match outcome with
      | .error why => (t, .closed (.broken why))
      | .ok .unchanged => (t, .closed .unchanged)
      | .ok (.stale last) => t.stale o u last
      | .ok (.rejected reason) => t.rejected o u reason
      | .ok .applied => t.applied before.snapshot o u

end Tracker

end OrderWatch
