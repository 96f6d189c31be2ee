import OrderWatch.Proofs.Event.Codec
import OrderWatch.Proofs.Order.Accounts
import OrderWatch.Proofs.Order.Seen

/-
  A record goes on from its text as if it had been kept.

  An update whose own numbers have 64 bits leaves a record
  whose numbers have 64 bits, so a record stays one that can
  be stored.  It may therefore be stored and restored anywhere
  between its updates: the record at the end is the same, and
  so is every answer, with all of its events.

  Main declarations:
    * `Update.Storable`
    * `Order.Storable.apply`, `Order.Storable.respond`
    * `Order.respondAll`
    * `Order.Stage`, `Order.liveThrough?`
    * `Order.liveThrough?_eq`
    * `Order.restored_as_stored`
-/

namespace OrderWatch

open Json

namespace Update

def time : Update → Int
  | .status u => u.time
  | .fill f => f.time

/- The numbers of an update have 64 bits. -/
structure Storable (u : Update) : Prop where
  time : Signed64 u.time
  sequence : u.sequence < 2 ^ 64

end Update

namespace Order

variable {o p : Order}

------------------------------------------------------------
-- The time of the latest update
------------------------------------------------------------

/- The time is left, or that of an update is taken up. -/
def Retimed
    (o p : Order)
    (time : Int) : Prop :=
  p.updatedAt = o.updatedAt ∨
    p.updatedAt = max o.updatedAt time

theorem updatedAt_conclude
    (o : Order)
    (f : Fill) :
    (o.conclude f).updatedAt = o.updatedAt := by
  rw [conclude_eq]

theorem StatusStep.retimed
    {u : StatusUpdate}
    {outcome : Outcome}
    (hStep : o.StatusStep u p outcome) :
    o.Retimed p u.time := by
  cases hStep with
  | mismatched => exact .inl rfl
  | stale => exact .inl rfl
  | unchanged => exact .inr rfl
  | moved => exact .inr rfl
  | refused => exact .inr rfl

/- A fill that is not accepted leaves the time. -/
theorem FillStep.retimed
    {f : Fill}
    {outcome : Except Overflow Outcome}
    (hStep : o.FillStep f p outcome) :
    o.Retimed p f.time := by
  cases hStep with
  | mismatched => exact .inl rfl
  | stale => exact .inl rfl
  | empty => exact .inl rfl
  | duplicate => exact .inl rfl
  | brokenBase => exact .inr rfl
  | brokenQuote => exact .inr rfl
  | brokenFee => exact .inr rfl
  | free => exact .inr (updatedAt_conclude _ f)
  | charged => exact .inr (updatedAt_conclude _ f)

theorem apply_retimed
    (o : Order)
    (u : Update) :
    o.Retimed (o.apply u).1 u.time := by
  cases u with
  | status u => exact (o.applyStatus_step u).retimed
  | fill f => exact (o.applyFill_step f).retimed

------------------------------------------------------------
-- Records that can be stored
------------------------------------------------------------

theorem storable_ofRequest
    {r : OrderRequest}
    (hCreated : Signed64 r.createdAt) :
    (ofRequest r).Storable where
  createdAt := hCreated
  updatedAt := hCreated
  sequence := by
    intro channel n hMem
    cases channel <;> cases hMem

namespace Storable

/- The numbers of a record are its own or of the update. -/
theorem apply
    (h : o.Storable)
    {u : Update}
    (hUpdate : u.Storable) :
    (o.apply u).1.Storable where
  createdAt := by
    rw [(o.apply_sameTerms u).createdAt_eq]
    exact h.createdAt
  updatedAt := by
    rcases o.apply_retimed u with hSame | hLater
    · rw [hSame]
      exact h.updatedAt
    · rw [hLater]
      rcases max_choice o.updatedAt u.time with hOld | hNew
      · rw [hOld]
        exact h.updatedAt
      · rw [hNew]
        exact hUpdate.time
  sequence := by
    intro channel n hMem
    rw [sequenceOf_apply] at hMem
    split at hMem
    · cases hMem
      exact hUpdate.sequence
    · exact h.sequence channel n hMem

theorem announce
    (h : o.Storable) :
    o.announce.Storable where
  createdAt := h.createdAt
  updatedAt := h.updatedAt
  sequence := by
    intro channel
    cases channel with
    | status => exact h.sequence .status
    | trade => exact h.sequence .trade

theorem respond
    (h : o.Storable)
    {u : Update}
    (hUpdate : u.Storable)
    (time : Time.Moment)
    (policy : TerminalPolicy) :
    (o.respond u time policy).1.Storable := by
  rcases o.respond_record u time policy with hSame | hMarked
  · rw [hSame]
    exact h.apply hUpdate
  · rw [hMarked]
    exact (h.apply hUpdate).announce

end Storable

------------------------------------------------------------
-- Stages
------------------------------------------------------------

/- A record after some updates, and what it has answered. -/
def respondAll
    (o : Order)
    (policy : TerminalPolicy) :
    List (Update × Time.Moment) → Order × List Tracker.Receipt
  | [] => (o, [])
  | (u, time) :: us =>
      let (o, receipt) := o.respond u time policy
      let (o, receipts) := o.respondAll policy us
      (o, receipt :: receipts)

/-
  What comes next for a record: an update, or that it is
  stored and goes on from its text.
-/
inductive Stage where
  | update (u : Update) (time : Time.Moment)
  | restore

/- The update of a stage, with its time. -/
def Stage.update? : Stage → Option (Update × Time.Moment)
  | .update u time => some (u, time)
  | .restore => none

/- The updates among some stages, with their times. -/
def updatesAmong
    (stages : List Stage) : List (Update × Time.Moment) :=
  stages.filterMap Stage.update?

/-
  A record after some stages, and what it has answered.
  There is none once a text cannot be read.
-/
def liveThrough?
    (o : Order)
    (policy : TerminalPolicy) :
    List Stage → Option (Order × List Tracker.Receipt)
  | [] => some (o, [])
  | .update u time :: stages => do
      let (o, receipt) := o.respond u time policy
      let (o, receipts) ← o.liveThrough? policy stages
      return (o, receipt :: receipts)
  | .restore :: stages => do
      let o ← restore? o.stored
      o.liveThrough? policy stages

/- To store and restore a record makes no difference. -/
theorem liveThrough?_eq
    {stages : List Stage}
    (h : o.Storable)
    (hUpdates : ∀ u ∈ updatesAmong stages, u.1.Storable)
    (policy : TerminalPolicy) :
    o.liveThrough? policy stages =
      some (o.respondAll policy (updatesAmong stages)) := by
  induction stages generalizing o with
  | nil => rfl
  | cons stage stages ih =>
      cases stage with
      | restore =>
          unfold liveThrough?
          rw [restore?_stored h]
          exact ih h hUpdates
      | update u time =>
          have hCons :
              updatesAmong (.update u time :: stages) =
                (u, time) :: updatesAmong stages :=
            rfl
          rw [hCons, List.forall_mem_cons] at hUpdates
          rw [hCons]
          unfold liveThrough? respondAll
          simp only
          rw [ih (h.respond hUpdates.1 time policy) hUpdates.2]
          rfl

/-
  A record comes back from its text as it was stored, and is
  then answered for as if it had been kept.  An event comes
  back as it was published.
-/
theorem restored_as_stored
    {stages : List Stage}
    (h : o.Storable)
    (hUpdates : ∀ u ∈ updatesAmong stages, u.1.Storable)
    (policy : TerminalPolicy)
    {e : Event}
    {millis : Int}
    (hTime : e.time = .ofMillis millis)
    (hCreated : ∀ n ∈ e.createdAt?, Signed64 n) :
    restore? o.stored = some o ∧
      o.liveThrough? policy stages =
        some (o.respondAll policy (updatesAmong stages)) ∧
      Event.receive? e.published = some e := by
  have hOrdinary : e.time.IsOrdinary := by
    rw [hTime]
    exact Time.Moment.isOrdinary_ofMillis millis
  exact
    ⟨restore?_stored h, liveThrough?_eq h hUpdates policy,
      Event.receive?_published ⟨hOrdinary, hCreated⟩⟩

/- A record that is stored before and after its only fill. -/
def storedAround : List Stage :=
  [.restore, .update (.fill sampleFill) (.ofMillis 0), .restore]

/- The news of an order, from before the year one. -/
def ancientCreation : Event :=
  .created .sell
    { orderId := "a", venueId := none, pair := "A-B"
      kind := .market, amount := .zero, price := .zero
      createdAt := -1, time := .ofMillis (-62135596800001) }

theorem restored_as_stored_around :
    restore? (ofRequest sampleRequest).stored =
        some (ofRequest sampleRequest) ∧
      (ofRequest sampleRequest).liveThrough? .once storedAround =
        some ((ofRequest sampleRequest).respondAll .once
          [(.fill sampleFill, .ofMillis 0)]) ∧
      Event.receive? ancientCreation.published =
        some ancientCreation := by
  have hZero : Signed64 0 := by decide
  have hFill : (Update.fill sampleFill).Storable :=
    ⟨hZero, by decide⟩
  have hUpdates :
      ∀ u ∈ updatesAmong storedAround, u.1.Storable := by
    intro u hMem
    rw [List.mem_singleton.mp hMem]
    exact hFill
  have hTime :
      ancientCreation.time = .ofMillis (-62135596800001) :=
    rfl
  have hCreated :
      ∀ n ∈ ancientCreation.createdAt?, Signed64 n := by
    intro n hMem
    cases hMem
    decide
  exact
    restored_as_stored (storable_ofRequest hZero) hUpdates .once
      hTime hCreated

end Order

end OrderWatch
