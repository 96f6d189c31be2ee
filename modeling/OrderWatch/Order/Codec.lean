import OrderWatch.Json.Decoder
import OrderWatch.Order

/-
  Orders, requests and updates as JSON.

  Decimals are written as text, so that none of their digits
  is lost.  In a request and an update the venue's name, the
  price and the time may be left out; a stored record has all
  of its fields.

  Key definitions:
    * `Order.encode`, `Order.decode?`
    * `OrderRequest.encode`, `OrderRequest.decode?`
    * `StatusUpdate.encode`, `StatusUpdate.decode?`
    * `Fill.encode`, `Fill.decode?`
-/

namespace OrderWatch

namespace Json

/- A decimal as its text. -/
def decimal (d : Decimal) : Json :=
  str (toString d)

/- A value of an enumeration as its word. -/
def word {α : Type} [Worded α] (a : α) : Json :=
  str (Worded.word a)

/- A value of an enumeration from its word. -/
def worded? {α : Type} [Worded α] : Decoder α :=
  word? Worded.read?

end Json

open Json (decimal? string? natural? integer? bool? worded?)

------------------------------------------------------------
-- Fees
------------------------------------------------------------

namespace Fee

def fieldNames : List String :=
  ["asset", "amount"]

def encode (f : Fee) : Json :=
  .record
    [("asset", .str f.asset),
      ("amount", .decimal f.amount)]

def decode? : Json.Decoder Fee := fun j => do
  let r ← Json.fields? fieldNames j
  return {
    asset := ← r.required 0 string?
    amount := ← r.required 1 decimal? }

end Fee

------------------------------------------------------------
-- Requests
------------------------------------------------------------

namespace OrderRequest

def fieldNames : List String :=
  ["client_order_id", "trading_pair", "order_type",
    "trade_type", "amount", "price", "exchange_order_id",
    "creation_timestamp"]

def encode (r : OrderRequest) : Json :=
  .record
    [("client_order_id", .str r.id),
      ("trading_pair", .str r.pair),
      ("order_type", .word r.kind),
      ("trade_type", .word r.side),
      ("amount", .decimal r.amount),
      ("price", .decimal r.price),
      ("exchange_order_id", .optional .str r.venueId),
      ("creation_timestamp", .int r.createdAt)]

/- A request that does not name its order gets a fresh name. -/
def decode?
    (fresh : OrderId) : Json.Decoder OrderRequest := fun j => do
  let r ← Json.fields? fieldNames j
  return {
    id := ← r.withDefault 0 fresh string?
    pair := ← r.required 1 string?
    kind := ← r.required 2 worded?
    side := ← r.required 3 worded?
    amount := ← r.required 4 decimal?
    price := ← r.withDefault 5 .zero decimal?
    venueId := ← r.withDefault 6 none (Json.orNull string?)
    createdAt := ← r.withDefault 7 0 integer? }

end OrderRequest

------------------------------------------------------------
-- Updates
------------------------------------------------------------

namespace StatusUpdate

def fieldNames : List String :=
  ["client_order_id", "exchange_order_id", "new_state",
    "sequence", "update_timestamp"]

def encode (u : StatusUpdate) : Json :=
  .record
    [("client_order_id", .str u.orderId),
      ("exchange_order_id", .optional .str u.venueId),
      ("new_state", .word u.status),
      ("sequence", .nat u.sequence),
      ("update_timestamp", .int u.time)]

def decode? : Json.Decoder StatusUpdate := fun j => do
  let r ← Json.fields? fieldNames j
  return {
    orderId := ← r.required 0 string?
    venueId := ← r.withDefault 1 none (Json.orNull string?)
    status := ← r.required 2 worded?
    sequence := ← r.required 3 natural?
    time := ← r.withDefault 4 0 integer? }

end StatusUpdate

namespace Fill

def fieldNames : List String :=
  ["trade_id", "client_order_id", "exchange_order_id",
    "fill_price", "fill_base_amount", "fill_quote_amount",
    "fee", "sequence", "fill_timestamp"]

def encode (f : Fill) : Json :=
  .record
    [("trade_id", .str f.tradeId),
      ("client_order_id", .str f.orderId),
      ("exchange_order_id", .optional .str f.venueId),
      ("fill_price", .decimal f.price),
      ("fill_base_amount", .decimal f.base),
      ("fill_quote_amount", .decimal f.quote),
      ("fee", f.fee.encode),
      ("sequence", .nat f.sequence),
      ("fill_timestamp", .int f.time)]

def decode? : Json.Decoder Fill := fun j => do
  let r ← Json.fields? fieldNames j
  return {
    tradeId := ← r.required 0 string?
    orderId := ← r.required 1 string?
    venueId := ← r.withDefault 2 none (Json.orNull string?)
    price := ← r.required 3 decimal?
    base := ← r.required 4 decimal?
    quote := ← r.required 5 decimal?
    fee := ← r.required 6 Fee.decode?
    sequence := ← r.required 7 natural?
    time := ← r.withDefault 8 0 integer? }

end Fill

------------------------------------------------------------
-- Records
------------------------------------------------------------

namespace Order

def fieldNames : List String :=
  ["client_order_id", "exchange_order_id", "trading_pair",
    "base_asset", "quote_asset", "trade_type", "order_type",
    "amount", "price", "executed_amount_base",
    "executed_amount_quote", "fee_asset", "fees_paid",
    "last_filled_price", "last_filled_amount",
    "latest_trade_fee", "current_state", "creation_timestamp",
    "last_update_timestamp", "last_status_sequence",
    "last_trade_sequence", "applied_trades",
    "terminal_event_emitted"]

/- The names of fills are written in the order of bytes. -/
def encode (o : Order) : Json :=
  .record
    [("client_order_id", .str o.id),
      ("exchange_order_id", .optional .str o.venueId),
      ("trading_pair", .str o.pair),
      ("base_asset", .str o.baseAsset),
      ("quote_asset", .str o.quoteAsset),
      ("trade_type", .word o.side),
      ("order_type", .word o.kind),
      ("amount", .decimal o.amount),
      ("price", .decimal o.price),
      ("executed_amount_base", .decimal o.executedBase),
      ("executed_amount_quote", .decimal o.executedQuote),
      ("fee_asset", .optional .str o.feeAsset),
      ("fees_paid",
        .record (o.feesPaid.toList.map fun (asset, amount) =>
          (asset, .decimal amount))),
      ("last_filled_price", .decimal o.lastPrice),
      ("last_filled_amount", .decimal o.lastAmount),
      ("latest_trade_fee", .optional Fee.encode o.lastFee),
      ("current_state", .word o.status),
      ("creation_timestamp", .int o.createdAt),
      ("last_update_timestamp", .int o.updatedAt),
      ("last_status_sequence", .optional .nat o.statusSequence),
      ("last_trade_sequence", .optional .nat o.tradeSequence),
      ("applied_trades", .array (o.trades.toList.map .str)),
      ("terminal_event_emitted", .bool o.announced)]

/- Of two fees in one asset the later one counts. -/
def decode? : Json.Decoder Order := fun j => do
  let r ← Json.fields? fieldNames j
  let fees ← r.required 12 (Json.entries? decimal?)
  let trades ← r.required 21 (Json.list? string?)
  return {
    id := ← r.required 0 string?
    venueId := ← r.nullable 1 string?
    pair := ← r.required 2 string?
    baseAsset := ← r.required 3 string?
    quoteAsset := ← r.required 4 string?
    side := ← r.required 5 worded?
    kind := ← r.required 6 worded?
    amount := ← r.required 7 decimal?
    price := ← r.required 8 decimal?
    executedBase := ← r.required 9 decimal?
    executedQuote := ← r.required 10 decimal?
    feeAsset := ← r.nullable 11 string?
    feesPaid :=
      fees.foldl (fun paid fee => paid.insert fee.1 fee.2) ∅
    lastPrice := ← r.required 13 decimal?
    lastAmount := ← r.required 14 decimal?
    lastFee := ← r.nullable 15 Fee.decode?
    status := ← r.required 16 worded?
    createdAt := ← r.required 17 integer?
    updatedAt := ← r.required 18 integer?
    statusSequence := ← r.nullable 19 natural?
    tradeSequence := ← r.nullable 20 natural?
    trades := trades.foldl (fun set id => set.insert id) ∅
    announced := ← r.required 22 bool? }

end Order

end OrderWatch
