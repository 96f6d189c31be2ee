import OrderWatch.Event
import OrderWatch.Order

/-
  Which events an update calls for.

  The record after the update is compared with what it showed
  before.  An order that has just been taken is reported as
  created, a higher total as filled by the difference, and
  an order that is done by its terminal event.  Under the
  policy `once` the terminal event is published only the first
  time; under `replay`, after every update.

  Key definitions:
    * `Snapshot`
    * `TerminalPolicy`
    * `Order.terminalEvent?`
    * `Order.eventsSince`
-/

namespace OrderWatch

/- How often the terminal event of an order is published. -/
inductive TerminalPolicy where
  | once
  | replay
deriving DecidableEq, Repr, Inhabited

instance : Worded TerminalPolicy where
  all := [.once, .replay]
  word
    | .once => "ONCE"
    | .replay => "REPLAY"

/- What a record is compared by. -/
structure Snapshot where
  status : Status
  executedBase : Decimal
deriving DecidableEq, Repr, Inhabited

namespace Order

def snapshot (o : Order) : Snapshot :=
  ⟨o.status, o.executedBase⟩

------------------------------------------------------------
-- Single events
------------------------------------------------------------

/- The event that the venue has taken an order. -/
def creationEvent (o : Order) (now : Time.Moment) : Event :=
  .created o.side
    { orderId := o.id
      venueId := o.venueId
      pair := o.pair
      kind := o.kind
      amount := o.amount
      price := o.price
      createdAt := o.createdAt
      time := now }

/-
  The event that an amount has been executed, at the price
  and the fee of the last fill.
-/
def fillEvent
    (o : Order)
    (amount : Decimal)
    (now : Time.Moment) : Event :=
  .filled
    { orderId := o.id
      venueId := o.venueId
      pair := o.pair
      side := o.side
      kind := o.kind
      price := o.lastPrice
      amount
      fee := o.lastFee.getD (.zero o.quoteAsset)
      time := now }

/-
  The event that closes an order.  A total fee is reported in
  the quote asset as long as none has been charged.
-/
def terminalEvent?
    (o : Order)
    (now : Time.Moment) : Option Event :=
  match o.status with
  | .filled =>
      some (.completed o.side
        { orderId := o.id
          venueId := o.venueId
          baseAsset := o.baseAsset
          quoteAsset := o.quoteAsset
          feeAsset := o.feeAsset.getD o.quoteAsset
          base := o.executedBase
          quote := o.executedQuote
          fee := o.totalFee
          kind := o.kind
          time := now })
  | .cancelled => some (.cancelled ⟨o.id, o.venueId, now⟩)
  | .failed => some (.failed ⟨o.id, o.kind, now⟩)
  | .pendingCreate | .open | .partiallyFilled => none

------------------------------------------------------------
-- All events of an update
------------------------------------------------------------

/- The creation event, if a change of status calls for it. -/
def creationSince
    (o : Order)
    (before : Snapshot)
    (channel : Channel)
    (now : Time.Moment) : Option Event :=
  if channel = .status
      ∧ before.status = .pendingCreate
      ∧ o.status = .open then
    some (o.creationEvent now)
  else
    none

/-
  The fill event, if more has been executed than before.  The
  difference may not fit.
-/
def fillSince
    (o : Order)
    (before : Snapshot)
    (now : Time.Moment) : Except Overflow (Option Event) :=
  match Decimal.sub o.executedBase before.executedBase with
  | some delta =>
      .ok (if delta.isPositive then
        some (o.fillEvent delta now)
      else
        none)
  | none => .error .subtraction

/- The terminal event, if the policy calls for it. -/
def terminalUnder?
    (o : Order)
    (policy : TerminalPolicy)
    (now : Time.Moment) : Option Event :=
  if o.announced && policy == .once then
    none
  else
    o.terminalEvent? now

/- The events of an update, in the order of their telling. -/
def eventsSince
    (o : Order)
    (before : Snapshot)
    (channel : Channel)
    (now : Time.Moment)
    (policy : TerminalPolicy) : Except Overflow (List Event) :=
  (o.fillSince before now).map fun fill? =>
    (o.creationSince before channel now).toList
      ++ fill?.toList
      ++ (o.terminalUnder? policy now).toList

/- An order has a terminal event exactly when it is done. -/
theorem isSome_terminalEvent?
    (o : Order)
    (now : Time.Moment) :
    (o.terminalEvent? now).isSome = o.isDone := by
  unfold terminalEvent? isDone Status.isTerminal
  cases o.status <;> rfl

end Order

end OrderWatch
