import OrderWatch.Event
import OrderWatch.Order.Codec

/-
  Events as JSON.

  An event is an object of its own fields and of a field
  `type`, which holds the word of its topic.  Reading goes by
  that word first.

  Key definitions:
    * `Event.encode`
    * `Event.decode?`
-/

namespace OrderWatch

open Json (decimal? string? integer? moment? worded?)

------------------------------------------------------------
-- Bodies
------------------------------------------------------------

namespace Creation

def fieldNames : List String :=
  ["client_order_id", "exchange_order_id", "trading_pair",
    "order_type", "amount", "price", "creation_timestamp",
    "timestamp"]

def fields (e : Creation) : List (String × Json) :=
  [("client_order_id", .str e.orderId),
    ("exchange_order_id", .optional .str e.venueId),
    ("trading_pair", .str e.pair),
    ("order_type", .word e.kind),
    ("amount", .decimal e.amount),
    ("price", .decimal e.price),
    ("creation_timestamp", .int e.createdAt),
    ("timestamp", .str e.time.text)]

def decode? : Json.Decoder Creation := fun j => do
  let r ← Json.fields? fieldNames j
  return {
    orderId := ← r.required 0 string?
    venueId := ← r.nullable 1 string?
    pair := ← r.required 2 string?
    kind := ← r.required 3 worded?
    amount := ← r.required 4 decimal?
    price := ← r.required 5 decimal?
    createdAt := ← r.required 6 integer?
    time := ← r.required 7 moment? }

end Creation

namespace Execution

def fieldNames : List String :=
  ["client_order_id", "exchange_order_id", "trading_pair",
    "trade_type", "order_type", "price", "amount",
    "trade_fee", "timestamp"]

def fields (e : Execution) : List (String × Json) :=
  [("client_order_id", .str e.orderId),
    ("exchange_order_id", .optional .str e.venueId),
    ("trading_pair", .str e.pair),
    ("trade_type", .word e.side),
    ("order_type", .word e.kind),
    ("price", .decimal e.price),
    ("amount", .decimal e.amount),
    ("trade_fee", e.fee.encode),
    ("timestamp", .str e.time.text)]

def decode? : Json.Decoder Execution := fun j => do
  let r ← Json.fields? fieldNames j
  return {
    orderId := ← r.required 0 string?
    venueId := ← r.nullable 1 string?
    pair := ← r.required 2 string?
    side := ← r.required 3 worded?
    kind := ← r.required 4 worded?
    price := ← r.required 5 decimal?
    amount := ← r.required 6 decimal?
    fee := ← r.required 7 Fee.decode?
    time := ← r.required 8 moment? }

end Execution

namespace Completion

def fieldNames : List String :=
  ["client_order_id", "exchange_order_id", "base_asset",
    "quote_asset", "fee_asset", "base_asset_amount",
    "quote_asset_amount", "fee_amount", "order_type",
    "timestamp"]

def fields (e : Completion) : List (String × Json) :=
  [("client_order_id", .str e.orderId),
    ("exchange_order_id", .optional .str e.venueId),
    ("base_asset", .str e.baseAsset),
    ("quote_asset", .str e.quoteAsset),
    ("fee_asset", .str e.feeAsset),
    ("base_asset_amount", .decimal e.base),
    ("quote_asset_amount", .decimal e.quote),
    ("fee_amount", .decimal e.fee),
    ("order_type", .word e.kind),
    ("timestamp", .str e.time.text)]

def decode? : Json.Decoder Completion := fun j => do
  let r ← Json.fields? fieldNames j
  return {
    orderId := ← r.required 0 string?
    venueId := ← r.nullable 1 string?
    baseAsset := ← r.required 2 string?
    quoteAsset := ← r.required 3 string?
    feeAsset := ← r.required 4 string?
    base := ← r.required 5 decimal?
    quote := ← r.required 6 decimal?
    fee := ← r.required 7 decimal?
    kind := ← r.required 8 worded?
    time := ← r.required 9 moment? }

end Completion

namespace Cancellation

def fieldNames : List String :=
  ["client_order_id", "exchange_order_id", "timestamp"]

def fields (e : Cancellation) : List (String × Json) :=
  [("client_order_id", .str e.orderId),
    ("exchange_order_id", .optional .str e.venueId),
    ("timestamp", .str e.time.text)]

def decode? : Json.Decoder Cancellation := fun j => do
  let r ← Json.fields? fieldNames j
  return {
    orderId := ← r.required 0 string?
    venueId := ← r.nullable 1 string?
    time := ← r.required 2 moment? }

end Cancellation

namespace Failure

def fieldNames : List String :=
  ["client_order_id", "order_type", "timestamp"]

def fields (e : Failure) : List (String × Json) :=
  [("client_order_id", .str e.orderId),
    ("order_type", .word e.kind),
    ("timestamp", .str e.time.text)]

def decode? : Json.Decoder Failure := fun j => do
  let r ← Json.fields? fieldNames j
  return {
    orderId := ← r.required 0 string?
    kind := ← r.required 1 worded?
    time := ← r.required 2 moment? }

end Failure

------------------------------------------------------------
-- Events
------------------------------------------------------------

namespace Event

/- The name of the field that holds the topic. -/
def tagName : String :=
  "type"

/- The fields of an event, its topic excluded. -/
def fields : Event → List (String × Json)
  | .created _ e => e.fields
  | .filled e => e.fields
  | .completed _ e => e.fields
  | .cancelled e => e.fields
  | .failed e => e.fields

def encode (e : Event) : Json :=
  .record ((tagName, .word e.topic) :: e.fields)

/- The event of a topic with the fields of a JSON value. -/
def ofTopic? (topic : Topic) (j : Json) : Option Event :=
  match topic with
  | .created side => (Creation.decode? j).map (.created side)
  | .filled => (Execution.decode? j).map .filled
  | .completed side =>
      (Completion.decode? j).map (.completed side)
  | .cancelled => (Cancellation.decode? j).map .cancelled
  | .failed => (Failure.decode? j).map .failed

def decode? : Json.Decoder Event := fun j => do
  let (name, rest) ← Json.tagged? tagName j
  ofTopic? (← Worded.read? name) rest

end Event

end OrderWatch
