import OrderWatch.Order.Status
import OrderWatch.Order.Terms
import OrderWatch.Decimal.Sum

/-
  What is said about an order: the request that creates it,
  and the updates that arrive on two channels, changes of
  status on one and fills on the other.  Each channel numbers
  its updates on its own.

  Key definitions:
    * `Channel`
    * `OrderRequest`
    * `StatusUpdate`
    * `Fill`
    * `Fill.priced`
-/

namespace OrderWatch

/- The name that the client gives an order. -/
abbrev OrderId :=
  String

/- The name that the venue gives an order. -/
abbrev VenueId :=
  String

/- The name that the venue gives a fill. -/
abbrev TradeId :=
  String

inductive Channel where
  | status
  | trade
deriving DecidableEq, Repr, Inhabited

namespace Channel

instance : Worded Channel where
  all := [.status, .trade]
  word
    | .status => "status"
    | .trade => "trade"

instance : ToString Channel :=
  ⟨Worded.word⟩

end Channel

/- A request to the venue for an order. -/
structure OrderRequest where
  id : OrderId
  pair : String
  kind : OrderKind
  side : Side
  amount : Decimal
  price : Decimal
  venueId : Option VenueId
  createdAt : Int
deriving DecidableEq, Repr, Inhabited

/- The venue reports the status of an order. -/
structure StatusUpdate where
  orderId : OrderId
  venueId : Option VenueId
  status : Status
  sequence : Nat
  time : Int
deriving DecidableEq, Repr, Inhabited

/- The venue reports a fill of an order. -/
structure Fill where
  tradeId : TradeId
  orderId : OrderId
  venueId : Option VenueId
  price : Decimal
  base : Decimal
  quote : Decimal
  fee : Fee
  sequence : Nat
  time : Int
deriving DecidableEq, Repr, Inhabited

namespace Fill

/-
  A fill whose quote amount is its price times its base
  amount, if that product fits.
-/
def priced
    (tradeId : TradeId)
    (orderId : OrderId)
    (price base : Decimal)
    (fee : Fee)
    (sequence : Nat) : Option Fill :=
  (Decimal.mul price base).map fun quote =>
    { tradeId, orderId, venueId := none, price, base, quote,
      fee, sequence, time := 0 }

end Fill

/- An update on either channel. -/
inductive Update where
  | status (u : StatusUpdate)
  | fill (f : Fill)
deriving DecidableEq, Repr

namespace Update

def channel : Update → Channel
  | .status _ => .status
  | .fill _ => .trade

def orderId : Update → OrderId
  | .status u => u.orderId
  | .fill f => f.orderId

def sequence : Update → Nat
  | .status u => u.sequence
  | .fill f => f.sequence

end Update

end OrderWatch
