import OrderWatch.Proofs.Decimal.Exact
import OrderWatch.Proofs.Order.Accounts
import OrderWatch.Proofs.Order.Response

/-
  The fills that a response reports.

  The amount of a fill event is the difference of two totals.
  If neither the addition to the total nor this difference
  loses digits, an applied fill is reported as it came in, by
  one event, and nothing else is reported as a fill.  So a
  response raises the base total by exactly the amounts that
  it reports.

  Main declarations:
    * `Event.execution?`, `fillsIn`, `tally`
    * `Order.fillsIn_eventsSince`
    * `Execution.Reports`
    * `Order.FillsExactly`
    * `Order.Told`, `Order.told_respond`
-/

namespace OrderWatch

------------------------------------------------------------
-- Fills among events
------------------------------------------------------------

/- What a fill event says. -/
def Event.execution? : Event → Option Execution
  | .filled e => some e
  | .created _ _ | .completed _ _ | .cancelled _ | .failed _ =>
      none

/- The fills that some events report. -/
def fillsIn (events : List Event) : List Execution :=
  events.filterMap Event.execution?

theorem fillsIn_append
    (xs ys : List Event) :
    fillsIn (xs ++ ys) = fillsIn xs ++ fillsIn ys :=
  List.filterMap_append

/- The amounts of some fills, added up as numbers. -/
def tally (fills : List Execution) : Int :=
  (fills.map fun e => e.amount.units).sum

theorem tally_append
    (xs ys : List Execution) :
    tally (xs ++ ys) = tally xs + tally ys := by
  unfold tally
  rw [List.map_append, List.sum_append]

/- An event reports a fill as it came in to a record. -/
structure Execution.Reports
    (e : Execution)
    (f : Fill)
    (p : Order) : Prop where
  orderId_eq : e.orderId = p.id
  venueId_eq : e.venueId = p.venueId
  price_eq : e.price = f.price
  fee_eq : e.fee = f.fee
  amount_eq : e.amount.units = f.base.units

namespace Order

variable {o p : Order} {u : Update} {time : Time.Moment}
variable {policy : TerminalPolicy}

theorem fillsIn_terminalUnder?
    (p : Order)
    (policy : TerminalPolicy)
    (time : Time.Moment) :
    fillsIn (p.terminalUnder? policy time).toList = [] := by
  unfold terminalUnder? terminalEvent?
  split
  · rfl
  · split <;> rfl

theorem fillsIn_creationSince
    (p : Order)
    (before : Snapshot)
    (channel : Channel)
    (time : Time.Moment) :
    fillsIn (p.creationSince before channel time).toList = [] := by
  unfold creationSince
  split <;> rfl

/- Only a higher total is reported as a fill. -/
theorem fillsIn_eventsSince
    {before : Snapshot}
    {channel : Channel}
    {events : List Event}
    (hEvents :
      p.eventsSince before channel time policy = .ok events) :
    ∃ delta,
      Decimal.sub p.executedBase before.executedBase =
        some delta ∧
      fillsIn events =
        if 0 < delta.units then
          fillsIn [p.fillEvent delta time]
        else
          [] := by
  unfold eventsSince fillSince at hEvents
  cases hDelta :
      Decimal.sub p.executedBase before.executedBase with
  | none =>
      rw [hDelta] at hEvents
      contradiction
  | some delta =>
      refine ⟨delta, rfl, ?_⟩
      rw [hDelta] at hEvents
      rw [← Except.ok.inj hEvents, fillsIn_append,
        fillsIn_append, fillsIn_creationSince,
        fillsIn_terminalUnder?, List.nil_append,
        List.append_nil]
      simp only [Decimal.isPositive_iff]
      split <;> rfl

------------------------------------------------------------
-- Responses
------------------------------------------------------------

instance
    (o : Order)
    (f : Fill) :
    Decidable (o.Accepts f) :=
  decidable_of_iff
    (f.orderId = o.id ∧
      o.staleAt .trade f.sequence = none ∧
      f.base.isPositive = true ∧ f.tradeId ∉ o.trades)
    ⟨fun ⟨hId, hFresh, hPositive, hUnused⟩ =>
        ⟨hId, hFresh, hPositive, hUnused⟩,
      fun h => ⟨h.addressed, h.fresh, h.positive, h.unused⟩⟩

/-
  A fill is added to the base total, and its difference is
  taken, without a loss of digits.
-/
def FillsExactly (o : Order) (f : Fill) : Prop :=
  o.executedBase.AddsExactly f.base ∧
    ∀ total ∈ Decimal.add o.executedBase f.base,
      total.SubtractsExactly o.executedBase

instance
    (o : Order)
    (f : Fill) :
    Decidable (o.FillsExactly f) := by
  unfold FillsExactly
  infer_instance

/- An executed fill is reported once, as it came in. -/
theorem Executes.reported
    {f : Fill}
    (hExecutes : o.Executes f p)
    (hExact : o.FillsExactly f)
    {channel : Channel}
    {events : List Event}
    (hEvents :
      p.eventsSince o.snapshot channel time policy =
        .ok events) :
    ∃ e, fillsIn events = [e] ∧ e.Reports f p := by
  rcases fillsIn_eventsSince hEvents with
    ⟨delta, hDelta, hFills⟩
  have hTotal := hExecutes.base_eq
  have hAmount : delta.units = f.base.units :=
    Decimal.units_sub_of_exact hTotal hExact.1
      (hExact.2 _ hTotal) hDelta
  have hPositive : 0 < delta.units := by
    rw [hAmount, ← Decimal.isPositive_iff]
    exact hExecutes.accepts.positive
  rw [if_pos hPositive] at hFills
  refine ⟨_, hFills, ?_⟩
  exact
    { orderId_eq := rfl
      venueId_eq := rfl
      price_eq := hExecutes.lastPrice_eq
      fee_eq := by
        change p.lastFee.getD _ = f.fee
        rw [hExecutes.lastFee_eq, Option.getD_some]
      amount_eq := hAmount }

/- The ways that an update is reported in fills. -/
inductive Told
    (o : Order)
    (u : Update)
    (r : Order × Tracker.Receipt) : Prop where
  | filled
      (f : Fill)
      (events : List Event)
      (e : Execution)
      (hFill : u = .fill f)
      (hVerdict : r.2.verdict = .applied events)
      (hFills : fillsIn events = [e])
      (hReports : e.Reports f (o.apply u).1)
      (hTotal :
        r.1.executedBase.units =
          o.executedBase.units + f.base.units)
  | silent
      (hOther :
        ∀ f events, u = .fill f → r.2.verdict ≠ .applied events)
      (hNone : fillsIn r.2.verdict.events = [])
      (hTotal : r.1.executedBase = o.executedBase)

/- A status update reports no fill. -/
theorem fillsIn_respond_status
    (o : Order)
    (u : StatusUpdate)
    (time : Time.Moment)
    (policy : TerminalPolicy) :
    fillsIn
        (o.respond (.status u) time policy).2.verdict.events =
      [] := by
  cases hVerdict :
      (o.respond (.status u) time policy).2.verdict with
  | applied events =>
      rcases applied_of_respond hVerdict with ⟨_, hEvents⟩
      rcases fillsIn_eventsSince hEvents with
        ⟨delta, hDelta, hFills⟩
      have hSame :
          (o.apply (.status u)).1.executedBase =
            o.executedBase :=
        (o.applyStatus_step u).executedBase_eq
      rw [hSame] at hDelta
      have hNothing :=
        o.executedBase.subtractsExactly_self delta hDelta
      rw [Int.sub_self] at hNothing
      rw [hNothing, if_neg (by decide)] at hFills
      exact hFills
  | unchanged => rfl
  | ignored why => rfl
  | broken why => rfl

/- A fill that is not answered as applied reports none. -/
theorem fillsIn_respond_other
    (hOther :
      ∀ f events, u = .fill f →
        (o.respond u time policy).2.verdict ≠
          .applied events) :
    fillsIn (o.respond u time policy).2.verdict.events = [] := by
  cases u with
  | status u => exact o.fillsIn_respond_status u time policy
  | fill f =>
      cases hVerdict :
          (o.respond (.fill f) time policy).2.verdict with
      | applied events =>
          exact absurd hVerdict (hOther f events rfl)
      | unchanged => rfl
      | ignored why => rfl
      | broken why => rfl

/- A fill that is answered as applied reports itself. -/
theorem told_fill
    {f : Fill}
    {events : List Event}
    (hExact : o.Accepts f → o.FillsExactly f)
    (hVerdict :
      (o.respond (.fill f) time policy).2.verdict =
        .applied events) :
    o.Told (.fill f) (o.respond (.fill f) time policy) := by
  rcases applied_of_respond hVerdict with ⟨hApplied, hEvents⟩
  have hStep := o.applyFill_step f
  have hFilled : (o.applyFill f).2 = .ok .applied := hApplied
  rw [hFilled] at hStep
  have hExecutes := hStep.executes
  have hLossless := hExact hExecutes.accepts
  rcases hExecutes.reported hLossless hEvents with
    ⟨e, hFills, hReports⟩
  have hTotal := hLossless.1 _ hExecutes.base_eq
  have hBase :=
    congrArg Decimal.units
      (o.executedBase_respond (.fill f) time policy)
  exact
    .filled f events e rfl hVerdict hFills hReports
      (hBase.trans hTotal)

/- Every update that is not broken off is reported in one way. -/
theorem told_respond
    (hExact :
      ∀ f, u = .fill f → o.Accepts f → o.FillsExactly f)
    (hWhole :
      ∀ why, (o.respond u time policy).2.verdict ≠ .broken why) :
    o.Told u (o.respond u time policy) := by
  have hBase := o.executedBase_respond u time policy
  cases u with
  | status u =>
      refine .silent (by simp) ?_ (hBase.trans ?_)
      · exact o.fillsIn_respond_status u time policy
      · exact (o.applyStatus_step u).executedBase_eq
  | fill f =>
      by_cases hOther :
          ∀ events,
            (o.respond (.fill f) time policy).2.verdict ≠
              .applied events
      · -- It has been refused, so that no total has changed.
        rcases refused_of_respond hOther hWhole with
          ⟨outcome, hOutcome, hRefused⟩
        have hSame := sameAccounts_of_refused hOutcome hRefused
        refine
          .silent (fun _ events _ => hOther events) ?_
            (hBase.trans hSame.base_eq)
        exact
          fillsIn_respond_other fun _ events _ => hOther events
      · rcases not_forall_not.mp hOther with ⟨events, hVerdict⟩
        exact told_fill (hExact f rfl) hVerdict

end Order

end OrderWatch
