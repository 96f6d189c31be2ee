import OrderWatch.Proofs.Order.Life

/-
  Updates to a record, one after the other.

  The log of some updates has what became of each of them.
  From it one reads which fills were executed, and which of
  them were at least not stale.

  Main declarations:
    * `Order.applyAll`, `Order.outcomes`
    * `executed`, `heardFills`
-/

namespace OrderWatch

/- Updates, each with what has become of it. -/
abbrev Outcomes :=
  List (Update × Except Overflow Outcome)

namespace Order

/- The record after some updates. -/
def applyAll (o : Order) : List Update → Order
  | [] => o
  | u :: us => (o.apply u).1.applyAll us

/- What has become of each of some updates. -/
def outcomes (o : Order) : List Update → Outcomes
  | [] => []
  | u :: us => (u, (o.apply u).2) :: (o.apply u).1.outcomes us

theorem outcomes_append
    (o : Order)
    (us vs : List Update) :
    o.outcomes (us ++ vs) =
      o.outcomes us ++ (o.applyAll us).outcomes vs := by
  induction us generalizing o with
  | nil => rfl
  | cons u us ih =>
      have hRest := ih (o.apply u).1
      simp only [List.cons_append, outcomes, applyAll, hRest]

theorem id_applyAll
    (o : Order)
    (us : List Update) :
    (o.applyAll us).id = o.id := by
  induction us generalizing o with
  | nil => rfl
  | cons u us ih =>
      exact (ih (o.apply u).1).trans (o.apply_sameTerms u).id_eq

end Order

/- The fill of an update that was applied. -/
def executedFill? :
    Update × Except Overflow Outcome → Option Fill
  | (.fill f, .ok .applied) => some f
  | _ => none

/- The fill of an update that was not stale. -/
def heardFill? :
    Update × Except Overflow Outcome → Option Fill
  | (.fill _, .ok (.stale _)) => none
  | (.fill f, _) => some f
  | (.status _, _) => none

/- The fills that were applied. -/
def executed (log : Outcomes) : List Fill :=
  log.filterMap executedFill?

/- The fills that were not stale. -/
def heardFills (log : Outcomes) : List Fill :=
  log.filterMap heardFill?

theorem executed_append
    (log : Outcomes)
    (e : Update × Except Overflow Outcome) :
    executed (log ++ [e]) =
      executed log ++ (executedFill? e).toList := by
  unfold executed
  rw [List.filterMap_append, List.filterMap_cons]
  cases executedFill? e <;> rfl

theorem heardFills_append
    (log : Outcomes)
    (e : Update × Except Overflow Outcome) :
    heardFills (log ++ [e]) =
      heardFills log ++ (heardFill? e).toList := by
  unfold heardFills
  rw [List.filterMap_append, List.filterMap_cons]
  cases heardFill? e <;> rfl

end OrderWatch
