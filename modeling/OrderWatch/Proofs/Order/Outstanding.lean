import OrderWatch.Proofs.Order.Accounts

/-
  What is outstanding of an order.

  An order that is not done has not been executed up to its
  amount.  Only fills add to what has been executed, and the
  fill that reaches the amount closes the order in the same
  step.  A status update may move the order about, but it
  opens none that is done, so no order is left open with its
  amount reached.

  Main declarations:
    * `Order.Reached`, `Order.Outstanding`
    * `Order.FillStep.completes_iff`
    * `Order.Outstanding.apply`, `Order.Outstanding.applyAll`
    * `Order.completed_when_reached`
-/

namespace OrderWatch

/- Every order that is not done may be filled. -/
theorem Status.canBecome_filled
    (s : Status) :
    s.canBecome .filled = !s.isTerminal := by
  cases s <;> rfl

namespace Order

variable {o p : Order} {f : Fill}

------------------------------------------------------------
-- Fills
------------------------------------------------------------

/- What has been executed comes up to the amount. -/
def Reached (o : Order) : Prop :=
  o.amount ≤ o.executedBase

theorem not_reached_iff
    (o : Order) :
    ¬ o.Reached ↔ o.executedBase < o.amount :=
  Int.not_le

/-
  A fill comes last: the status changes exactly if the order
  was not done and has reached its amount.
-/
theorem conclude_completes_iff
    (o : Order)
    (f : Fill) :
    ((o.conclude f).status ≠ o.status ↔
        o.isDone = false ∧ (o.conclude f).Reached) ∧
      ((o.conclude f).status ≠ o.status →
        (o.conclude f).status = .filled) := by
  have hReached : (o.conclude f).Reached ↔ o.Reached := by
    rw [conclude_eq]
    rfl
  rw [hReached]
  rw [conclude_eq, Status.canBecome_filled]
  by_cases hCloses :
      o.amount ≤ o.executedBase ∧ (!o.status.isTerminal) = true
  · have hOpen : o.isDone = false := by
      simpa [isDone] using hCloses.2
    have hMoves : .filled ≠ o.status := by
      intro hFilled
      rw [isDone, ← hFilled] at hOpen
      contradiction
    simp only [if_pos hCloses]
    exact ⟨⟨fun _ => ⟨hOpen, hCloses.1⟩, fun _ => hMoves⟩,
      fun _ => trivial⟩
  · simp only [if_neg hCloses]
    refine ⟨⟨fun hMoves => absurd rfl hMoves, ?_⟩,
      fun hMoves => absurd rfl hMoves⟩
    rintro ⟨hOpen, hAmount⟩
    exact absurd ⟨hAmount, by rw [← isDone, hOpen]; rfl⟩ hCloses

/-
  A fill changes the status exactly if it is applied to an
  order that is not done and reaches the amount; the order is
  then filled.
-/
theorem FillStep.completes_iff
    {outcome : Except Overflow Outcome}
    (hStep : o.FillStep f p outcome) :
    (p.status ≠ o.status ↔
        o.isDone = false ∧ outcome = .ok .applied ∧
          p.Reached) ∧
      (p.status ≠ o.status → p.status = .filled) := by
  cases hStep with
  | free base quote =>
      simpa [totalled, taking, noted, isDone] using
        conclude_completes_iff (o.totalled f base quote) f
  | charged base quote total =>
      simpa [Order.charged, charging, totalled, taking, noted,
        isDone] using
        conclude_completes_iff
          ((o.totalled f base quote).charged f total) f
  | _ => simp [taking, totalled, charging, noted]

------------------------------------------------------------
-- Orders that are not done
------------------------------------------------------------

/- An order that is not done has not reached its amount. -/
def Outstanding (o : Order) : Prop :=
  o.isDone = false → ¬ o.Reached

/- An order that is not done was not done before, either. -/
theorem isDone_of_apply
    {u : Update}
    (hOpen : (o.apply u).1.isDone = false) :
    o.isDone = false := by
  cases hDone : o.isDone with
  | false => rfl
  | true =>
      have hStatus := status_apply_of_isDone hDone u
      unfold isDone at hOpen hDone
      rw [hStatus, hDone] at hOpen
      contradiction

namespace Outstanding

/- A request for something is outstanding. -/
theorem ofRequest
    {r : OrderRequest}
    (hPositive : .zero < r.amount) :
    (Order.ofRequest r).Outstanding := by
  intro _
  rw [not_reached_iff]
  exact hPositive

/- A status update does not touch what is compared. -/
theorem status
    (h : o.Outstanding)
    (u : StatusUpdate) :
    (o.apply (.status u)).1.Outstanding := by
  intro hOpen
  have hBefore := h (isDone_of_apply hOpen)
  have hAmount := (o.apply_sameTerms (.status u)).amount_eq
  have hBase :
      (o.apply (.status u)).1.executedBase = o.executedBase :=
    (o.applyStatus_step u).executedBase_eq
  unfold Reached at hBefore ⊢
  rwa [hAmount, hBase]

/-
  A fill that is refused does not touch it either, and one
  that is applied reaches the amount only as it closes the
  order.
-/
theorem fill
    (h : o.Outstanding)
    {f : Fill}
    {outcome : Outcome}
    (hOutcome : (o.apply (.fill f)).2 = .ok outcome) :
    (o.apply (.fill f)).1.Outstanding := by
  intro hOpen hReached
  have hBefore := isDone_of_apply hOpen
  by_cases hApplied : outcome = .applied
  · have hMoves :=
      (o.applyFill_step f).completes_iff.1.mpr
        ⟨hBefore, hApplied ▸ hOutcome, hReached⟩
    have hFilled := (o.applyFill_step f).completes_iff.2 hMoves
    have hFilled : (o.apply (.fill f)).1.status = .filled :=
      hFilled
    rw [isDone, hFilled] at hOpen
    contradiction
  · have hSame := sameAccounts_of_refused hOutcome hApplied
    have hAmount := (o.apply_sameTerms (.fill f)).amount_eq
    unfold Reached at hReached
    rw [hAmount, hSame.base_eq] at hReached
    exact h hBefore hReached

theorem apply
    (h : o.Outstanding)
    {u : Update}
    (hFits : ∀ why, (o.apply u).2 ≠ .error why) :
    (o.apply u).1.Outstanding := by
  cases u with
  | status u => exact h.status u
  | fill f =>
      cases hOutcome : (o.apply (.fill f)).2 with
      | error why => exact absurd hOutcome (hFits why)
      | ok outcome => exact h.fill hOutcome

theorem applyAll
    (h : o.Outstanding)
    {us : List Update}
    (hFits : ∀ e ∈ o.outcomes us, ∀ why, e.2 ≠ .error why) :
    (o.applyAll us).Outstanding := by
  induction us generalizing o with
  | nil => exact h
  | cons u us ih =>
      have hNext : (o.apply u).1.Outstanding := by
        apply h.apply
        exact hFits (u, (o.apply u).2) List.mem_cons_self
      apply ih hNext
      intro e hMem
      exact hFits e (List.mem_cons_of_mem _ hMem)

end Outstanding

/-
  An order is requested with an amount above zero, and given
  updates none of which breaks.  At any point between them,
  an order that is not done has been executed by less than
  its amount, and a fill changes its status exactly if it is
  applied and reaches the amount while the order is not done.
  The status that it changes to is filled.
-/
theorem completed_when_reached
    (r : OrderRequest)
    (hPositive : .zero < r.amount)
    (us : List Update)
    (hFits :
      ∀ e ∈ (ofRequest r).outcomes us,
        ∀ why, e.2 ≠ .error why) :
    ∀ before after, us = before ++ after →
      let o := (ofRequest r).applyAll before
      (o.isDone = false → o.executedBase < o.amount) ∧
      ∀ f : Fill,
        let p := (o.apply (.fill f)).1
        (p.status ≠ o.status ↔
          o.isDone = false ∧
            (o.apply (.fill f)).2 = .ok .applied ∧
            p.amount ≤ p.executedBase) ∧
        (p.status ≠ o.status → p.status = .filled) := by
  rintro before after rfl o
  have hBefore : o.Outstanding := by
    apply (Outstanding.ofRequest hPositive).applyAll
    intro e hMem
    apply hFits e
    rw [outcomes_append]
    exact List.mem_append_left _ hMem
  constructor
  · intro hOpen
    exact (not_reached_iff o).mp (hBefore hOpen)
  · intro f
    exact (o.applyFill_step f).completes_iff

/- Two units are asked for. -/
def twoUnits : OrderRequest :=
  { sampleRequest with amount := (Decimal.ofInt? 2).getD .zero }

/-
  Two fills of one unit each with an update of the status
  between them that opens the order: the first one leaves
  it open, and the second one fills it.
-/
def filledInTwo : List Update :=
  [.fill sampleFill,
    .status
      { orderId := "a", venueId := none, status := .open
        sequence := 0, time := 0 },
    .fill { sampleFill with tradeId := "s", sequence := 1 }]

theorem completed_when_reached_filledInTwo :
    let o := (ofRequest twoUnits).applyAll (filledInTwo.take 2)
    let p := (ofRequest twoUnits).applyAll filledInTwo
    .zero < twoUnits.amount ∧
      o.status = .open ∧ o.executedBase < o.amount ∧
      p.amount ≤ p.executedBase ∧ p.status = .filled := by
  intro o p
  have hPositive : .zero < twoUnits.amount := by decide
  have hFits :
      ∀ e ∈ (ofRequest twoUnits).outcomes filledInTwo,
        ∀ why, e.2 ≠ .error why := by
    intro e hMem why hError
    have hNone :
        ((ofRequest twoUnits).outcomes filledInTwo).all
          (fun e => e.2.isOk) = true := by
      decide +kernel
    have hOk := List.all_eq_true.mp hNone e hMem
    rw [hError] at hOk
    contradiction
  rcases completed_when_reached twoUnits hPositive filledInTwo
      hFits (filledInTwo.take 2) (filledInTwo.drop 2) rfl with
    ⟨hOpen, hFill⟩
  have hStatus : o.status = .open := by decide +kernel
  have hMoves : p.status ≠ o.status := by decide +kernel
  rcases
    hFill { sampleFill with tradeId := "s", sequence := 1 } with
    ⟨hIff, hFilled⟩
  have hReached := (hIff.mp hMoves).2.2
  have hShort : o.isDone = false := by
    rw [isDone, hStatus]
    rfl
  exact
    ⟨hPositive, hStatus, hOpen hShort, hReached,
      hFilled hMoves⟩

end Order

end OrderWatch
