import OrderWatch.Order.Update
import OrderWatch.Decimal.Quotient
import Std.Data.ExtTreeMap
import Std.Data.ExtTreeSet

/-
  The record of an order and how updates change it.

  A record keeps what the order asked for, what has been
  executed and charged so far, and the last sequence number
  seen on each channel.  An update that is not newer than the
  last one of its channel changes nothing.  Any other one
  takes its sequence number, even if it is then refused.

  The totals are decimals, and a sum may not fit.  Then the
  update is broken off, and what it has written up to there
  stays written.

  Key definitions:
    * `Order`
    * `Order.ofRequest`
    * `Order.applyStatus`
    * `Order.applyFill`
    * `Order.averagePrice`
-/

namespace OrderWatch

------------------------------------------------------------
-- Outcomes
------------------------------------------------------------

/- An operation whose decimal result does not fit. -/
inductive Overflow where
  | addition
  | subtraction
  | multiplication
  | division
deriving DecidableEq, Repr, Inhabited

namespace Overflow

def message : Overflow → String
  | .addition => "Addition overflowed"
  | .subtraction => "Subtraction overflowed"
  | .multiplication => "Multiplication overflowed"
  | .division => "Division overflowed"

end Overflow

/- Why an update was refused. -/
inductive Refusal where
  | invalidTransition (here there : Status)
  | duplicateTrade (id : TradeId)
  | emptyFill
  | mismatchedOrder
deriving DecidableEq, Repr

namespace Refusal

/- The short name of a reason. -/
def code : Refusal → String
  | .invalidTransition _ _ => "invalid_transition"
  | .duplicateTrade _ => "duplicate_trade"
  | .emptyFill => "empty_fill"
  | .mismatchedOrder => "mismatched_order"

def message : Refusal → String
  | .invalidTransition here there =>
      s!"invalid transition {here} -> {there}"
  | .duplicateTrade id => s!"duplicate trade {id}"
  | .emptyFill => "fill with no base amount"
  | .mismatchedOrder => "update addressed to another order"

end Refusal

/- What an update has done to a record. -/
inductive Outcome where
  | applied
  | unchanged
  /- The update is not newer than the given sequence. -/
  | stale (last : Nat)
  | rejected (reason : Refusal)
deriving DecidableEq, Repr

namespace Outcome

def word : Outcome → String
  | .applied => "applied"
  | .unchanged => "unchanged"
  | .stale _ => "stale"
  | .rejected _ => "rejected"

/- Whether the record has changed its status or totals. -/
def changed (o : Outcome) : Bool :=
  o == .applied

end Outcome

------------------------------------------------------------
-- The record
------------------------------------------------------------

structure Order where
  id : OrderId
  venueId : Option VenueId
  pair : String
  baseAsset : String
  quoteAsset : String
  side : Side
  kind : OrderKind
  amount : Decimal
  price : Decimal
  executedBase : Decimal
  executedQuote : Decimal
  /- The asset of the first fee, in which fees are summed. -/
  feeAsset : Option String
  feesPaid : Std.ExtTreeMap String Decimal compare
  lastPrice : Decimal
  lastAmount : Decimal
  lastFee : Option Fee
  status : Status
  createdAt : Int
  updatedAt : Int
  statusSequence : Option Nat
  tradeSequence : Option Nat
  trades : Std.ExtTreeSet TradeId compare
  /- Whether the terminal event has been published. -/
  announced : Bool
deriving DecidableEq

namespace Order

/- The record of an order that has just been requested. -/
def ofRequest (r : OrderRequest) : Order :=
  let (baseAsset, quoteAsset) := splitPair r.pair
  { id := r.id
    venueId := r.venueId
    pair := r.pair
    baseAsset
    quoteAsset
    side := r.side
    kind := r.kind
    amount := r.amount
    price := r.price
    executedBase := .zero
    executedQuote := .zero
    feeAsset := none
    feesPaid := ∅
    lastPrice := .zero
    lastAmount := .zero
    lastFee := none
    status := .pendingCreate
    createdAt := r.createdAt
    updatedAt := r.createdAt
    statusSequence := none
    tradeSequence := none
    trades := ∅
    announced := false }

instance : Inhabited Order :=
  ⟨ofRequest default⟩

/- Whether the order is done for good. -/
def isDone (o : Order) : Bool :=
  o.status.isTerminal

/- The record once its terminal event has been published. -/
def announce (o : Order) : Order :=
  { o with announced := true }

------------------------------------------------------------
-- Totals
------------------------------------------------------------

/- What has been charged in an asset so far. -/
def feePaid (o : Order) (asset : String) : Decimal :=
  (o.feesPaid[asset]?).getD .zero

/- What has been charged in the asset of the first fee. -/
def totalFee (o : Order) : Decimal :=
  match o.feeAsset with
  | some asset => o.feePaid asset
  | none => .zero

/-
  The quote total divided by the base total, once something
  has been executed.
-/
def averagePrice
    (o : Order) : Option (Except Overflow Decimal) :=
  if o.executedBase.isPositive then
    match Decimal.div o.executedQuote o.executedBase with
    | some price => some (.ok price)
    | none => some (.error .division)
  else
    none

------------------------------------------------------------
-- Parts of an update
------------------------------------------------------------

/- The sequence a channel has reached, if it has begun. -/
def sequenceOf (o : Order) : Channel → Option Nat
  | .status => o.statusSequence
  | .trade => o.tradeSequence

/-
  The last sequence of a channel, if an update with the given
  one is not newer.
-/
def staleAt
    (o : Order)
    (channel : Channel)
    (sequence : Nat) : Option Nat :=
  (o.sequenceOf channel).filter fun last => sequence ≤ last

/-
  The time of the latest update goes up only, and the venue's
  name for the order is taken once.
-/
def noted
    (o : Order)
    (time : Int)
    (venueId : Option VenueId) : Order :=
  { o with
    updatedAt := max o.updatedAt time
    venueId := o.venueId.or venueId }

------------------------------------------------------------
-- Status updates
------------------------------------------------------------

/- The record after a status update, and what became of it. -/
def applyStatus
    (o : Order)
    (u : StatusUpdate) : Order × Outcome :=
  if u.orderId ≠ o.id then
    (o, .rejected .mismatchedOrder)
  else
    match o.staleAt .status u.sequence with
    | some last => (o, .stale last)
    | none =>
        let o :=
          { o with statusSequence := some u.sequence }.noted
            u.time u.venueId
        if u.status = o.status then
          (o, .unchanged)
        else if o.status.canBecome u.status then
          ({ o with status := u.status }, .applied)
        else
          (o, .rejected (.invalidTransition o.status u.status))

------------------------------------------------------------
-- Fills
------------------------------------------------------------

/-
  A step of a fill: the record it leaves, and whether the sum
  in it fitted.
-/
abbrev Step :=
  Order × Bool

/- The base amount of a fill is added to the total. -/
def addBase (o : Order) (amount : Decimal) : Step :=
  match Decimal.add o.executedBase amount with
  | some total => ({ o with executedBase := total }, true)
  | none => (o, false)

/-
  The quote amount of a fill is added to the total; one below
  zero counts as zero.
-/
def addQuote (o : Order) (amount : Decimal) : Step :=
  let amount := if amount < .zero then .zero else amount
  match Decimal.add o.executedQuote amount with
  | some total => ({ o with executedQuote := total }, true)
  | none => (o, false)

/-
  A fee above zero is added to what has been charged in its
  asset.  The first one decides the asset that is reported.
-/
def addFee (o : Order) (fee : Fee) : Step :=
  if fee.amount.isPositive then
    let o := { o with feeAsset := o.feeAsset.or (some fee.asset) }
    match Decimal.add (o.feePaid fee.asset) fee.amount with
    | some total =>
        ({ o with
            feesPaid := o.feesPaid.insert fee.asset total },
          true)
    | none => (o, false)
  else
    (o, true)

/- The last fill, and the status once the amount is reached. -/
def conclude (o : Order) (f : Fill) : Order :=
  let o :=
    { o with
      lastPrice := f.price
      lastAmount := f.base
      lastFee := some f.fee }
  if o.amount ≤ o.executedBase
      ∧ o.status.canBecome .filled then
    { o with status := .filled }
  else
    o

/-
  A fill that has been accepted: its name is taken down, then
  its amounts are added one after the other.
-/
def execute
    (o : Order)
    (f : Fill) : Order × Except Overflow Outcome :=
  let o :=
    { o with trades := o.trades.insert f.tradeId }.noted
      f.time f.venueId
  match o.addBase f.base with
  | (o, false) => (o, .error .addition)
  | (o, true) =>
      match o.addQuote f.quote with
      | (o, false) => (o, .error .addition)
      | (o, true) =>
          match o.addFee f.fee with
          | (o, false) => (o, .error .addition)
          | (o, true) => (o.conclude f, .ok .applied)

/-
  The record after a fill, and what became of it.  A fill
  needs a base amount above zero and a name of its own.
-/
def applyFill
    (o : Order)
    (f : Fill) : Order × Except Overflow Outcome :=
  if f.orderId ≠ o.id then
    (o, .ok (.rejected .mismatchedOrder))
  else
    match o.staleAt .trade f.sequence with
    | some last => (o, .ok (.stale last))
    | none =>
        let o := { o with tradeSequence := some f.sequence }
        if !f.base.isPositive then
          (o, .ok (.rejected .emptyFill))
        else if f.tradeId ∈ o.trades then
          (o, .ok (.rejected (.duplicateTrade f.tradeId)))
        else
          o.execute f

/- The record after an update on either channel. -/
def apply
    (o : Order)
    (u : Update) : Order × Except Overflow Outcome :=
  match u with
  | .status u =>
      let (o, outcome) := o.applyStatus u
      (o, .ok outcome)
  | .fill f => o.applyFill f

end Order

end OrderWatch
