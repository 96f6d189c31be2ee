import OrderWatch.Proofs.Order.Codec

/-
  An event is received as it was published.

  An event is told by its topic, which stands before its own
  fields, and every kind of event has fields of its own.  Its
  time is a moment of the calendar, such as any count of
  milliseconds gives.

  Main declarations:
    * `Event.Publishable`
    * `Event.decode?_encode`
    * `Event.published`, `Event.receive?`
    * `Event.receive?_published`
-/

namespace OrderWatch

open Json Json.Record

------------------------------------------------------------
-- Bodies
------------------------------------------------------------

theorem Creation.decode?_record
    {e : Creation}
    (hCreated : Signed64 e.createdAt)
    (hTime : e.time.IsOrdinary) :
    decode? (record e.fields) = some e := by
  have hFields : fields? fieldNames (record e.fields) = _ :=
    fields?_record (show fieldNames.Nodup by decide)
  refine Text.bind_of_eq hFields ?_
  refine bind_required rfl (string?_str e.orderId) ?_
  refine bind_nullable rfl (orNull_optional_str e.venueId) ?_
  refine bind_required rfl (string?_str e.pair) ?_
  refine bind_required rfl (worded?_word e.kind) ?_
  refine bind_required rfl (decimal?_decimal e.amount) ?_
  refine bind_required rfl (decimal?_decimal e.price) ?_
  refine bind_required rfl (integer?_int hCreated) ?_
  exact bind_required rfl (moment?_text hTime) rfl

theorem Execution.decode?_record
    {e : Execution}
    (hTime : e.time.IsOrdinary) :
    decode? (record e.fields) = some e := by
  have hFields : fields? fieldNames (record e.fields) = _ :=
    fields?_record (show fieldNames.Nodup by decide)
  refine Text.bind_of_eq hFields ?_
  refine bind_required rfl (string?_str e.orderId) ?_
  refine bind_nullable rfl (orNull_optional_str e.venueId) ?_
  refine bind_required rfl (string?_str e.pair) ?_
  refine bind_required rfl (worded?_word e.side) ?_
  refine bind_required rfl (worded?_word e.kind) ?_
  refine bind_required rfl (decimal?_decimal e.price) ?_
  refine bind_required rfl (decimal?_decimal e.amount) ?_
  refine bind_required rfl e.fee.decode?_encode ?_
  exact bind_required rfl (moment?_text hTime) rfl

theorem Completion.decode?_record
    {e : Completion}
    (hTime : e.time.IsOrdinary) :
    decode? (record e.fields) = some e := by
  have hFields : fields? fieldNames (record e.fields) = _ :=
    fields?_record (show fieldNames.Nodup by decide)
  refine Text.bind_of_eq hFields ?_
  refine bind_required rfl (string?_str e.orderId) ?_
  refine bind_nullable rfl (orNull_optional_str e.venueId) ?_
  refine bind_required rfl (string?_str e.baseAsset) ?_
  refine bind_required rfl (string?_str e.quoteAsset) ?_
  refine bind_required rfl (string?_str e.feeAsset) ?_
  refine bind_required rfl (decimal?_decimal e.base) ?_
  refine bind_required rfl (decimal?_decimal e.quote) ?_
  refine bind_required rfl (decimal?_decimal e.fee) ?_
  refine bind_required rfl (worded?_word e.kind) ?_
  exact bind_required rfl (moment?_text hTime) rfl

theorem Cancellation.decode?_record
    {e : Cancellation}
    (hTime : e.time.IsOrdinary) :
    decode? (record e.fields) = some e := by
  have hFields : fields? fieldNames (record e.fields) = _ :=
    fields?_record (show fieldNames.Nodup by decide)
  refine Text.bind_of_eq hFields ?_
  refine bind_required rfl (string?_str e.orderId) ?_
  refine bind_nullable rfl (orNull_optional_str e.venueId) ?_
  exact bind_required rfl (moment?_text hTime) rfl

theorem Failure.decode?_record
    {e : Failure}
    (hTime : e.time.IsOrdinary) :
    decode? (record e.fields) = some e := by
  have hFields : fields? fieldNames (record e.fields) = _ :=
    fields?_record (show fieldNames.Nodup by decide)
  refine Text.bind_of_eq hFields ?_
  refine bind_required rfl (string?_str e.orderId) ?_
  refine bind_required rfl (worded?_word e.kind) ?_
  exact bind_required rfl (moment?_text hTime) rfl

------------------------------------------------------------
-- Events
------------------------------------------------------------

namespace Event

/- When the order of an event was created, if it tells that. -/
def createdAt? : Event → Option Int
  | .created _ e => some e.createdAt
  | _ => none

/- The time of an event and its numbers can be written. -/
structure Publishable (e : Event) : Prop where
  time : e.time.IsOrdinary
  createdAt : ∀ n ∈ e.createdAt?, Signed64 n

variable {e : Event}

/- The fields of an event are exact, and none is the tag. -/
theorem plain_fields
    (h : e.Publishable) :
    ∀ f ∈ e.fields, f.2.Plain := by
  cases e with
  | created side b =>
      have hCreated := plain_int (h.createdAt b.createdAt rfl)
      simp [fields, Creation.fields, hCreated]
  | filled b =>
      simp [fields, Execution.fields, Fee.plain_encode]
  | completed side b => simp [fields, Completion.fields]
  | cancelled b => simp [fields, Cancellation.fields]
  | failed b => simp [fields, Failure.fields]

theorem tagName_not_mem
    (e : Event) :
    tagName ∉ e.fields.map Prod.fst := by
  cases e with
  | created side b =>
      show tagName ∉ Creation.fieldNames
      decide
  | filled b =>
      show tagName ∉ Execution.fieldNames
      decide
  | completed side b =>
      show tagName ∉ Completion.fieldNames
      decide
  | cancelled b =>
      show tagName ∉ Cancellation.fieldNames
      decide
  | failed b =>
      show tagName ∉ Failure.fieldNames
      decide

/- The fields are those of the topic. -/
theorem ofTopic?_record
    (h : e.Publishable) :
    ofTopic? e.topic (record e.fields) = some e := by
  have hTime := h.time
  cases e with
  | created side b =>
      have hRead :=
        Creation.decode?_record (h.createdAt b.createdAt rfl) hTime
      exact congrArg (Option.map (Event.created side)) hRead
  | filled b =>
      have hRead := Execution.decode?_record hTime
      exact congrArg (Option.map Event.filled) hRead
  | completed side b =>
      have hRead := Completion.decode?_record hTime
      exact congrArg (Option.map (Event.completed side)) hRead
  | cancelled b =>
      have hRead := Cancellation.decode?_record hTime
      exact congrArg (Option.map Event.cancelled) hRead
  | failed b =>
      have hRead := Failure.decode?_record hTime
      exact congrArg (Option.map Event.failed) hRead

/- An event is read from its fields as it was. -/
theorem decode?_encode
    (h : e.Publishable) :
    decode? e.encode = some e := by
  have hExact : (record e.fields).isExact = true :=
    isExact_record fun f hMem => (plain_fields h f hMem).exact
  have hDepth : (record e.fields).depth ≤ 1 + 1 :=
    depth_record_le fun f hMem => (plain_fields h f hMem).depth_le
  have hTagged :
      tagged? tagName e.encode =
        some (Worded.word e.topic, record e.fields) :=
    tagged?_record e.tagName_not_mem
      (isReadable_of_isExact hExact)
      (hDepth.trans (by decide))
  refine Text.bind_of_eq hTagged ?_
  refine Text.bind_of_eq (Worded.Faithful.read?_word e.topic) ?_
  exact ofTopic?_record h

theorem isExact_encode
    (h : e.Publishable) :
    e.encode.isExact = true := by
  apply isExact_record
  rw [List.forall_mem_cons]
  exact ⟨rfl, fun f hMem => (plain_fields h f hMem).exact⟩

/- The text under which an event is published. -/
def published (e : Event) : String :=
  e.encode.text

/- The event that has been published as a text. -/
def receive? (text : String) : Option Event :=
  Json.parse? text.toList >>= decode?

/- A published event is received as it was. -/
theorem receive?_published
    (h : e.Publishable) :
    receive? e.published = some e := by
  unfold receive? published Json.text
  rw [String.toList_ofList]
  exact
    Text.bind_of_eq (parse?_chars (isExact_encode h))
      (decode?_encode h)

end Event

end OrderWatch
