import OrderWatch.Event
import OrderWatch.Order

/-
  What a tracker answers to an update.

  Key definitions:
    * `Dismissal`
    * `Dismissal.message`
    * `Verdict`
-/

namespace OrderWatch

/- Why an update was ignored. -/
inductive Dismissal where
  | unknownOrder (id : OrderId)
  | staleUpdate
      (id : OrderId)
      (channel : Channel)
      (sequence last : Nat)
  | invalidTransition (id : OrderId) (here there : Status)
  | rejectedUpdate
      (id : OrderId)
      (channel : Channel)
      (reason : Refusal)
deriving DecidableEq, Repr

namespace Dismissal

/- A refused update as a reason to ignore it. -/
def ofRefusal
    (id : OrderId)
    (channel : Channel) : Refusal → Dismissal
  | .invalidTransition here there =>
      .invalidTransition id here there
  | reason => .rejectedUpdate id channel reason

/- The order that the update was about. -/
def orderId : Dismissal → OrderId
  | .unknownOrder id => id
  | .staleUpdate id _ _ _ => id
  | .invalidTransition id _ _ => id
  | .rejectedUpdate id _ _ => id

def name : Dismissal → String
  | .unknownOrder _ => "UnknownOrder"
  | .staleUpdate _ _ _ _ => "StaleUpdate"
  | .invalidTransition _ _ _ => "InvalidTransition"
  | .rejectedUpdate _ _ _ => "RejectedUpdate"

def message : Dismissal → String
  | .unknownOrder id =>
      s!"Order {id} is no longer being tracked"
  | .staleUpdate id channel sequence last =>
      s!"Stale {channel} update for order {id}: "
        ++ s!"sequence {sequence} <= {last}"
  | .invalidTransition id here there =>
      s!"Invalid transition for order {id}: {here} -> {there}"
  | .rejectedUpdate id channel reason =>
      s!"Rejected {channel} update for order {id}: "
        ++ reason.message

end Dismissal

/-
  A move between statuses, refused on behalf of an order if
  there is no such move.
-/
def Status.check
    (id : OrderId)
    (here there : Status) : Except Dismissal Unit :=
  if here.canBecome there then
    .ok ()
  else
    .error (.invalidTransition id here there)

inductive Verdict where
  | applied (events : List Event)
  | unchanged
  | ignored (why : Dismissal)
  /- A total did not fit. -/
  | broken (why : Overflow)
deriving DecidableEq, Repr

end OrderWatch
