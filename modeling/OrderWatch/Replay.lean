import OrderWatch.Desk
import OrderWatch.Json.Reader
import OrderWatch.Settings
import OrderWatch.Text.Blank
import OrderWatch.Tracker.Codec

/-
  The replay of commands that come line by line.

  A line is a JSON object with a command; blanks around it
  are dropped.  Empty lines, comments and lines that are no
  command are passed over.  Every event is printed, and so is
  the summary that a command asks for.  A total that does not
  fit breaks the replay off; what has been printed stays.

  Key definitions:
    * `Command`
    * `Command.decode?`
    * `Replay`
    * `Replay.handle`
    * `Replay.run`
-/

namespace OrderWatch

------------------------------------------------------------
-- Commands
------------------------------------------------------------

inductive Command where
  | track (r : OrderRequest)
  | update (u : Update)
  | stop (id : OrderId)
  | status
deriving DecidableEq, Repr

namespace Command

/- The name of the field that tells the commands apart. -/
def tagName : String :=
  "command"

/- A command that tracks an order may need a fresh name. -/
def decode? (fresh : OrderId) : Json.Decoder Command := fun j => do
  let (name, rest) ← Json.tagged? tagName j
  match name with
  | "track" => return .track (← OrderRequest.decode? fresh rest)
  | "order_update" =>
      return .update (.status (← StatusUpdate.decode? rest))
  | "trade_update" =>
      return .update (.fill (← Fill.decode? rest))
  | "stop" => do
      let r ← Json.fields? ["client_order_id"] rest
      return .stop (← r.required 0 Json.string?)
  | "status" => do
      Json.nothing? rest
      return .status
  | _ => none

/- The command of a line, if it holds one. -/
def read? (fresh : OrderId) (line : List Char) : Option Command :=
  match Text.trim line with
  | [] => none
  | '#' :: _ => none
  | text => (Json.parse? text).bind (decode? fresh)

end Command

------------------------------------------------------------
-- Replays
------------------------------------------------------------

/-
  A desk with one listener, which prints every event; its
  memory is what has been printed, the latest first.
-/
structure Replay where
  desk : Desk Unit (List Json)
  /- The nanoseconds between two sweeps of the cache. -/
  interval : Nat
  /- When the cache was last swept. -/
  swept : Nat

namespace Replay

/- The listener prints events and remembers nothing else. -/
def hear : Hearing Unit (List Json) := fun _ e d =>
  ({ d with memory := e.encode :: d.memory }, .done)

/- A bus on which the log and the printer hear all topics. -/
def sink : Sink Unit :=
  let (b, _) := Bus.subscribeAll ∅ Listener.log
  .bus (b.subscribeAll (.other "json_lines_writer" ())).1

/- A replay before its first line. -/
def opening
    (s : TrackerSettings)
    (clock : Time.Clock) : Replay :=
  { desk :=
      { tracker := .opening s.policy s.capacity s.lifetime clock
        sink
        memory := [] }
    interval := s.sweepInterval * 1000000000
    swept := clock.elapsed }

/- Let time pass, and sweep the cache when it is due. -/
def advance (r : Replay) (nanos : Nat) : Replay :=
  let t := r.desk.tracker.advance nanos
  if r.swept + r.interval ≤ t.now then
    { r with desk.tracker := t.purge.1, swept := t.now }
  else
    { r with desk.tracker := t }

def print (r : Replay) (j : Json) : Replay :=
  { r with desk.memory := j :: r.desk.memory }

/- Carry out a command; the answer says what did not fit. -/
def perform
    (r : Replay)
    (c : Command) : Replay × Option Overflow :=
  let t := r.desk.tracker
  match c with
  | .track q => ({ r with desk.tracker := t.start (.ofRequest q) }, none)
  | .stop id => ({ r with desk.tracker := (t.stop id).1 }, none)
  | .status => (r.print t.summary.encode, none)
  | .update u =>
      match r.desk.process hear u with
      | (desk, .broken why) => ({ r with desk }, some why)
      | (desk, _) => ({ r with desk }, none)

/- A line of the input. -/
structure Line where
  /- The nanoseconds since the line before it. -/
  pause : Nat
  /- The name for an order that has none. -/
  fresh : OrderId
  text : List Char

/- Handle a line; the answer says what did not fit. -/
def handle (r : Replay) (l : Line) : Replay × Option Overflow :=
  let r := r.advance l.pause
  match Command.read? l.fresh l.text with
  | some c => r.perform c
  | none => (r, none)

/- Handle lines up to the first one that is broken off. -/
def run (r : Replay) : List Line → Replay × Option Overflow
  | [] => (r, none)
  | l :: rest =>
      match r.handle l with
      | (r, none) => run r rest
      | (r, some why) => (r, some why)

/- What has been printed, the first line first. -/
def printed (r : Replay) : List Json :=
  r.desk.memory.reverse

/- The replay once its lines and its notes have been taken. -/
def cleared (r : Replay) : Replay :=
  { r with desk.memory := [], desk.tracker.journal := ∅ }

end Replay

end OrderWatch
