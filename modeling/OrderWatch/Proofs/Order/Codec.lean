import OrderWatch.Proofs.Json.Records

/-
  An order is restored from its text as it was.

  The numbers of a record that is stored have 64 bits: its
  times have a sign, its sequence numbers have none.  All of
  its other parts may be anything, and all of them come back.

  Main declarations:
    * `Order.Storable`
    * `Order.decode?_encode`
    * `Order.stored`, `Order.restore?`
    * `Order.restore?_stored`
-/

namespace OrderWatch

open Json Json.Record

namespace Fee

theorem decode?_encode
    (f : Fee) :
    decode? f.encode = some f := by
  have hFields : fields? fieldNames f.encode = _ :=
    fields?_record (show fieldNames.Nodup by decide)
  unfold decode?
  rw [hFields]
  simp [Record.required, Record.at?]

theorem plain_encode
    (f : Fee) :
    f.encode.Plain := by
  apply plain_record <;> simp [str, decimal, isExact, depth]

@[simp] theorem plain_optional_encode
    (fee? : Option Fee) :
    (optional encode fee?).Plain :=
  plain_optional fun f _ => f.plain_encode

theorem orNull_optional_encode
    (fee? : Option Fee) :
    orNull decode? (optional encode fee?) = some fee? :=
  orNull_optional (fun _ hNull => by cases hNull)
    fun f _ => f.decode?_encode

end Fee

namespace Order

/- The numbers of a record have 64 bits. -/
structure Storable (o : Order) : Prop where
  createdAt : Signed64 o.createdAt
  updatedAt : Signed64 o.updatedAt
  sequence : ∀ channel, ∀ n ∈ o.sequenceOf channel, n < 2 ^ 64

variable {o : Order}

/- A record is read from its fields as it was. -/
theorem decode?_encode
    (h : o.Storable) :
    decode? o.encode = some o := by
  have hFields : fields? fieldNames o.encode = _ :=
    fields?_record (show fieldNames.Nodup by decide)
  have hFees :=
    entries?_record decimal?_decimal o.feesPaid.toList
  have hTrades :
      list? string? (.array (o.trades.toList.map str)) =
        some o.trades.toList :=
    list?_array string?_str o.trades.toList
  refine Text.bind_of_eq hFields ?_
  refine bind_required rfl hFees ?_
  refine bind_required rfl hTrades ?_
  refine bind_required rfl (string?_str o.id) ?_
  refine bind_nullable rfl (orNull_optional_str o.venueId) ?_
  refine bind_required rfl (string?_str o.pair) ?_
  refine bind_required rfl (string?_str o.baseAsset) ?_
  refine bind_required rfl (string?_str o.quoteAsset) ?_
  refine bind_required rfl (worded?_word o.side) ?_
  refine bind_required rfl (worded?_word o.kind) ?_
  refine bind_required rfl (decimal?_decimal o.amount) ?_
  refine bind_required rfl (decimal?_decimal o.price) ?_
  refine bind_required rfl (decimal?_decimal o.executedBase) ?_
  refine bind_required rfl (decimal?_decimal o.executedQuote) ?_
  refine bind_nullable rfl (orNull_optional_str o.feeAsset) ?_
  refine bind_required rfl (decimal?_decimal o.lastPrice) ?_
  refine bind_required rfl (decimal?_decimal o.lastAmount) ?_
  refine bind_nullable rfl (Fee.orNull_optional_encode o.lastFee) ?_
  refine bind_required rfl (worded?_word o.status) ?_
  refine bind_required rfl (integer?_int h.createdAt) ?_
  refine bind_required rfl (integer?_int h.updatedAt) ?_
  refine bind_nullable rfl (orNull_optional_nat o.statusSequence) ?_
  refine bind_nullable rfl (orNull_optional_nat o.tradeSequence) ?_
  refine bind_required rfl (bool?_bool o.announced) ?_
  rw [foldl_insert_map, foldl_insert_set]
  rfl

/- No field of a record is lost or changed in its text. -/
theorem isExact_encode
    (h : o.Storable) :
    o.encode.isExact = true := by
  have hFees :=
    @plain_entries Decimal decimal (fun _ => rfl) (fun _ => rfl)
      o.feesPaid.toList
  have hSequence :
      ∀ n? : Option Nat, (∀ n ∈ n?, n < 2 ^ 64) →
        (Json.optional nat n?).Plain :=
    fun _ hFits => plain_optional fun n hMem =>
      plain_nat (hFits n hMem)
  apply isExact_record
  intro f hMem
  apply Plain.exact
  revert f
  simp only [List.forall_mem_cons]
  simp [hFees, plain_int h.createdAt, plain_int h.updatedAt,
    hSequence o.statusSequence (h.sequence .status),
    hSequence o.tradeSequence (h.sequence .trade),
    plain_strings]

/- The text under which a record is stored. -/
def stored (o : Order) : String :=
  o.encode.text

/- The record that is stored in a text. -/
def restore? (text : String) : Option Order :=
  Json.parse? text.toList >>= decode?

/- A stored record comes back as it was. -/
theorem restore?_stored
    (h : o.Storable) :
    restore? o.stored = some o := by
  unfold restore? stored Json.text
  rw [String.toList_ofList]
  exact
    Text.bind_of_eq (parse?_chars (isExact_encode h))
      (decode?_encode h)

end Order

end OrderWatch
