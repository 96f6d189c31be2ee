import OrderWatch.Event

/-
  What a tracker has to tell its operators.

  The journal holds everything in the order in which it was
  noted: messages, steps of counters, and readings of gauges.
  The total of a counter and the last reading of a gauge are
  read off it.

  Key definitions:
    * `Message`
    * `Counter`, `Gauge`
    * `Journal`
    * `Journal.total`, `Journal.reading?`
    * `Journal.samples`
-/

namespace OrderWatch

------------------------------------------------------------
-- Messages
------------------------------------------------------------

inductive Level where
  | debug
  | info
  | warn
  | error
deriving DecidableEq, Repr, Inhabited

instance : Worded Level where
  all := [.debug, .info, .warn, .error]
  word
    | .debug => "DEBUG"
    | .info => "INFO"
    | .warn => "WARN"
    | .error => "ERROR"

/- A line of text with named details. -/
structure Message where
  level : Level
  text : String
  details : List (String × String)
deriving DecidableEq, Repr, Inhabited

------------------------------------------------------------
-- Metrics
------------------------------------------------------------

/- What is counted. -/
inductive Counter where
  | unknownOrders (channel : Channel)
  | staleUpdates (channel : Channel)
  /- The reason is the short name of the refusal. -/
  | rejectedUpdates (channel : Channel) (reason : String)
  | eventsEmitted (topic : Topic)
  | listenerFailures (topic : Topic)
  | cacheEvictions
deriving DecidableEq, Repr

/- What is measured. -/
inductive Gauge where
  | activeOrders
  | cachedOrders
deriving DecidableEq, Repr

/- A name with labels, each in quotes. -/
def labelled
    (name : String)
    (labels : List (String × String)) : String :=
  let inner := labels.map fun (label, value) =>
    label ++ "=\"" ++ value ++ "\""
  if labels.isEmpty then
    name
  else
    name ++ "\x7b" ++ ",".intercalate inner ++ "\x7d"

def Counter.name : Counter → String
  | .unknownOrders channel =>
      labelled "order_tracker_unknown_orders_total"
        [("channel", Worded.word channel)]
  | .staleUpdates channel =>
      labelled "order_tracker_stale_updates_total"
        [("channel", Worded.word channel)]
  | .rejectedUpdates channel reason =>
      labelled "order_tracker_rejected_updates_total"
        [("channel", Worded.word channel), ("reason", reason)]
  | .eventsEmitted topic =>
      labelled "order_tracker_events_emitted_total"
        [("event", Worded.word topic)]
  | .listenerFailures topic =>
      labelled "order_tracker_listener_failures_total"
        [("event", Worded.word topic)]
  | .cacheEvictions => "order_tracker_cache_evictions_total"

def Gauge.name : Gauge → String
  | .activeOrders => "order_tracker_active_orders"
  | .cachedOrders => "order_tracker_cached_orders"

------------------------------------------------------------
-- The journal
------------------------------------------------------------

inductive Journal.Entry where
  | message (m : Message)
  | step (c : Counter) (n : Nat)
  | reading (g : Gauge) (n : Nat)
deriving DecidableEq, Repr

/- The entries, the latest first. -/
structure Journal where
  entries : List Journal.Entry
deriving DecidableEq, Repr, Inhabited

namespace Journal

instance : EmptyCollection Journal :=
  ⟨⟨[]⟩⟩

def note (j : Journal) (e : Entry) : Journal :=
  ⟨e :: j.entries⟩

/- Note a message. -/
def say
    (j : Journal)
    (level : Level)
    (text : String)
    (details : List (String × String)) : Journal :=
  j.note (.message ⟨level, text, details⟩)

/- Note that a counter goes up, unless it is by nothing. -/
def count (j : Journal) (c : Counter) (n : Nat) : Journal :=
  if n = 0 then
    j
  else
    j.note (.step c n)

/- Note the reading of a gauge. -/
def measure (j : Journal) (g : Gauge) (n : Nat) : Journal :=
  j.note (.reading g n)

/- The messages, the first one first. -/
def messages (j : Journal) : List Message :=
  j.entries.reverse.filterMap fun
    | .message m => some m
    | _ => none

/- What a counter has come to. -/
def total (j : Journal) (c : Counter) : Nat :=
  j.entries.foldr
    (fun
      | .step d k, n => if d = c then k + n else n
      | _, n => n)
    0

/- The last reading of a gauge, if there was one. -/
def reading? (j : Journal) (g : Gauge) : Option Nat :=
  j.entries.findSome? fun
    | .reading h n => if h = g then some n else none
    | _ => none

/- The counters that have gone up. -/
def counters (j : Journal) : List Counter :=
  (j.entries.filterMap fun
    | .step c _ => some c
    | _ => none).eraseDups

/- The gauges that have been read. -/
def gauges (j : Journal) : List Gauge :=
  (j.entries.filterMap fun
    | .reading g _ => some g
    | _ => none).eraseDups

/- Every metric that was noted, with its present value. -/
def samples (j : Journal) : List (String × Nat) :=
  (j.counters.map fun c => (c.name, j.total c))
    ++ j.gauges.map fun g => (g.name, (j.reading? g).getD 0)

end Journal

end OrderWatch
