import OrderWatch.Order.Terms
import OrderWatch.Order.Update
import OrderWatch.Time.Moment

/-
  What is published about an order.

  An event says that an order has been created at the venue,
  filled in part, completed, cancelled, or that it has failed.
  The last three are terminal.  Every event belongs to one
  topic, and listeners choose the topics that they hear.

  Key definitions:
    * `Topic`
    * `Event`
    * `Event.topic`
-/

namespace OrderWatch

------------------------------------------------------------
-- Topics
------------------------------------------------------------

inductive Topic where
  | created (side : Side)
  | filled
  | completed (side : Side)
  | cancelled
  | failed
deriving DecidableEq, Repr, Inhabited

namespace Topic

instance : Worded Topic where
  all :=
    [.created .buy, .created .sell, .filled, .completed .buy,
      .completed .sell, .cancelled, .failed]
  word
    | .created .buy => "BUY_ORDER_CREATED"
    | .created .sell => "SELL_ORDER_CREATED"
    | .filled => "ORDER_FILLED"
    | .completed .buy => "BUY_ORDER_COMPLETED"
    | .completed .sell => "SELL_ORDER_COMPLETED"
    | .cancelled => "ORDER_CANCELLED"
    | .failed => "ORDER_FAILURE"

instance : ToString Topic :=
  ⟨Worded.word⟩

/- Whether no other kind of event follows in an order's life. -/
def isTerminal : Topic → Bool
  | .completed _ | .cancelled | .failed => true
  | .created _ | .filled => false

end Topic

------------------------------------------------------------
-- Events
------------------------------------------------------------

/- The venue has taken an order. -/
structure Creation where
  orderId : OrderId
  venueId : Option VenueId
  pair : String
  kind : OrderKind
  amount : Decimal
  price : Decimal
  createdAt : Int
  time : Time.Moment
deriving DecidableEq, Repr, Inhabited

/- Some of an order has been executed. -/
structure Execution where
  orderId : OrderId
  venueId : Option VenueId
  pair : String
  side : Side
  kind : OrderKind
  price : Decimal
  amount : Decimal
  fee : Fee
  time : Time.Moment
deriving DecidableEq, Repr, Inhabited

/- All of an order has been executed; its totals. -/
structure Completion where
  orderId : OrderId
  venueId : Option VenueId
  baseAsset : String
  quoteAsset : String
  feeAsset : String
  base : Decimal
  quote : Decimal
  fee : Decimal
  kind : OrderKind
  time : Time.Moment
deriving DecidableEq, Repr, Inhabited

/- An order has been cancelled. -/
structure Cancellation where
  orderId : OrderId
  venueId : Option VenueId
  time : Time.Moment
deriving DecidableEq, Repr, Inhabited

/- An order has failed. -/
structure Failure where
  orderId : OrderId
  kind : OrderKind
  time : Time.Moment
deriving DecidableEq, Repr, Inhabited

inductive Event where
  | created (side : Side) (e : Creation)
  | filled (e : Execution)
  | completed (side : Side) (e : Completion)
  | cancelled (e : Cancellation)
  | failed (e : Failure)
deriving DecidableEq, Repr

namespace Event

def topic : Event → Topic
  | .created side _ => .created side
  | .filled _ => .filled
  | .completed side _ => .completed side
  | .cancelled _ => .cancelled
  | .failed _ => .failed

/- The order that an event is about. -/
def orderId : Event → OrderId
  | .created _ e => e.orderId
  | .filled e => e.orderId
  | .completed _ e => e.orderId
  | .cancelled e => e.orderId
  | .failed e => e.orderId

/- When an event was published. -/
def time : Event → Time.Moment
  | .created _ e => e.time
  | .filled e => e.time
  | .completed _ e => e.time
  | .cancelled e => e.time
  | .failed e => e.time

/- Whether an event closes the life of its order. -/
def isTerminal (e : Event) : Bool :=
  e.topic.isTerminal

end Event

end OrderWatch
