import OrderWatch.Proofs.Decimal.Sum
import OrderWatch.Proofs.Order.Steps

/-
  What stays and what moves in the life of a record.

  Updates do not touch what an order asked for.  The status
  moves only by an update that is applied, and only along the
  moves between statuses, so a record that is done stays as
  it is.  The base total never gets a minus sign.

  Main declarations:
    * `Order.SameTerms`, `Order.apply_sameTerms`
    * `Order.Moved`, `Order.apply_moved`
    * `Order.status_apply_of_isDone`
    * `Order.apply_unsigned`
-/

namespace OrderWatch

namespace Order

variable {o p : Order}

------------------------------------------------------------
-- What the order asked for
------------------------------------------------------------

/- Two records of one order, on the same terms. -/
structure SameTerms (o p : Order) : Prop where
  id_eq : p.id = o.id
  pair_eq : p.pair = o.pair
  baseAsset_eq : p.baseAsset = o.baseAsset
  quoteAsset_eq : p.quoteAsset = o.quoteAsset
  side_eq : p.side = o.side
  kind_eq : p.kind = o.kind
  amount_eq : p.amount = o.amount
  price_eq : p.price = o.price
  createdAt_eq : p.createdAt = o.createdAt
  announced_eq : p.announced = o.announced

theorem SameTerms.refl
    (o : Order) :
    o.SameTerms o :=
  ⟨rfl, rfl, rfl, rfl, rfl, rfl, rfl, rfl, rfl, rfl⟩

theorem SameTerms.trans
    {q : Order}
    (hFirst : o.SameTerms p)
    (hSecond : p.SameTerms q) :
    o.SameTerms q where
  id_eq := hSecond.id_eq.trans hFirst.id_eq
  pair_eq := hSecond.pair_eq.trans hFirst.pair_eq
  baseAsset_eq := hSecond.baseAsset_eq.trans hFirst.baseAsset_eq
  quoteAsset_eq :=
    hSecond.quoteAsset_eq.trans hFirst.quoteAsset_eq
  side_eq := hSecond.side_eq.trans hFirst.side_eq
  kind_eq := hSecond.kind_eq.trans hFirst.kind_eq
  amount_eq := hSecond.amount_eq.trans hFirst.amount_eq
  price_eq := hSecond.price_eq.trans hFirst.price_eq
  createdAt_eq := hSecond.createdAt_eq.trans hFirst.createdAt_eq
  announced_eq := hSecond.announced_eq.trans hFirst.announced_eq

theorem sameTerms_conclude
    (o : Order)
    (f : Fill) :
    o.SameTerms (o.conclude f) := by
  rw [conclude_eq]
  constructor <;> rfl

theorem StatusStep.sameTerms
    {u : StatusUpdate}
    {outcome : Outcome}
    (hStep : o.StatusStep u p outcome) :
    o.SameTerms p := by
  cases hStep <;> constructor <;> rfl

theorem FillStep.sameTerms
    {f : Fill}
    {outcome : Except Overflow Outcome}
    (hStep : o.FillStep f p outcome) :
    o.SameTerms p := by
  cases hStep with
  | free base quote =>
      have hTotals : o.SameTerms (o.totalled f base quote) := by
        constructor <;> rfl
      exact hTotals.trans (sameTerms_conclude _ f)
  | charged base quote total =>
      have hTotals :
          o.SameTerms
            ((o.totalled f base quote).charged f total) := by
        constructor <;> rfl
      exact hTotals.trans (sameTerms_conclude _ f)
  | _ => constructor <;> rfl

/- An update leaves the terms of an order alone. -/
theorem apply_sameTerms
    (o : Order)
    (u : Update) :
    o.SameTerms (o.apply u).1 := by
  cases u with
  | status u => exact (o.applyStatus_step u).sameTerms
  | fill f => exact (o.applyFill_step f).sameTerms

------------------------------------------------------------
-- Status
------------------------------------------------------------

/- The status has stayed, or an applied update has moved it. -/
def Moved
    (o p : Order)
    (outcome : Except Overflow Outcome) : Prop :=
  p.status = o.status ∨
    (outcome = .ok .applied ∧
      o.status.canBecome p.status = true)

/- A fill moves the status if it reaches the amount. -/
theorem status_conclude
    (o : Order)
    (f : Fill) :
    (o.conclude f).status = o.status ∨
      o.status.canBecome (o.conclude f).status = true := by
  rw [conclude_eq]
  by_cases hReached :
      o.amount ≤ o.executedBase ∧
        o.status.canBecome .filled = true
  · right
    simp only [if_pos hReached]
    exact hReached.2
  · left
    simp only [if_neg hReached]

theorem StatusStep.moved_status
    {u : StatusUpdate}
    {outcome : Outcome}
    (hStep : o.StatusStep u p outcome) :
    o.Moved p (.ok outcome) := by
  cases hStep with
  | moved hId hFresh hOther hMove => exact .inr ⟨rfl, hMove⟩
  | _ => exact .inl rfl

theorem FillStep.moved_status
    {f : Fill}
    {outcome : Except Overflow Outcome}
    (hStep : o.FillStep f p outcome) :
    o.Moved p outcome := by
  cases hStep with
  | free base quote =>
      rcases status_conclude (o.totalled f base quote) f with
        hSame | hMove
      · exact .inl hSame
      · exact .inr ⟨rfl, hMove⟩
  | charged base quote total =>
      rcases status_conclude
          ((o.totalled f base quote).charged f total) f with
        hSame | hMove
      · exact .inl hSame
      · exact .inr ⟨rfl, hMove⟩
  | _ => exact .inl rfl

/- Only an applied update moves the status. -/
theorem apply_moved
    (o : Order)
    (u : Update) :
    o.Moved (o.apply u).1 (o.apply u).2 := by
  cases u with
  | status u => exact (o.applyStatus_step u).moved_status
  | fill f => exact (o.applyFill_step f).moved_status

theorem canBecome_of_isTerminal
    {a : Status}
    (hTerminal : a.isTerminal = true)
    (b : Status) :
    a.canBecome b = false := by
  unfold Status.canBecome
  rw [(Status.isTerminal_iff_next a).mp hTerminal]
  rfl

/- A record that is done keeps its status. -/
theorem status_apply_of_isDone
    (hDone : o.isDone = true)
    (u : Update) :
    (o.apply u).1.status = o.status := by
  rcases o.apply_moved u with hSame | ⟨_, hMove⟩
  · exact hSame
  · rw [canBecome_of_isTerminal hDone] at hMove
    contradiction

/- An update that is not applied leaves the status. -/
theorem status_apply_of_ne_applied
    {u : Update}
    (hOther : (o.apply u).2 ≠ .ok .applied) :
    (o.apply u).1.status = o.status := by
  rcases o.apply_moved u with hSame | ⟨hApplied, _⟩
  · exact hSame
  · exact absurd hApplied hOther

------------------------------------------------------------
-- The base total
------------------------------------------------------------

theorem executedBase_conclude
    (o : Order)
    (f : Fill) :
    (o.conclude f).executedBase = o.executedBase := by
  rw [conclude_eq]

theorem StatusStep.executedBase_eq
    {u : StatusUpdate}
    {outcome : Outcome}
    (hStep : o.StatusStep u p outcome) :
    p.executedBase = o.executedBase := by
  cases hStep <;> rfl

/- The base total stays, or an accepted fill is added. -/
theorem FillStep.executedBase_cases
    {f : Fill}
    {outcome : Except Overflow Outcome}
    (hStep : o.FillStep f p outcome) :
    p.executedBase = o.executedBase ∨
      (o.Accepts f ∧
        Decimal.add o.executedBase f.base =
          some p.executedBase) := by
  cases hStep with
  | brokenQuote base hAccepts hBase =>
      exact .inr ⟨hAccepts, hBase⟩
  | brokenFee base quote hAccepts hBase =>
      exact .inr ⟨hAccepts, hBase⟩
  | free base quote hAccepts hBase =>
      refine .inr ⟨hAccepts, ?_⟩
      rw [executedBase_conclude, hBase]
      rfl
  | charged base quote total hAccepts hBase =>
      refine .inr ⟨hAccepts, ?_⟩
      rw [executedBase_conclude, hBase]
      rfl
  | _ => exact .inl rfl

/- The base total does not get a minus sign. -/
theorem apply_unsigned
    (hUnsigned : o.executedBase.negative = false)
    (u : Update) :
    (o.apply u).1.executedBase.negative = false := by
  cases u with
  | status u =>
      have hSame := (o.applyStatus_step u).executedBase_eq
      exact hSame ▸ hUnsigned
  | fill f =>
      rcases (o.applyFill_step f).executedBase_cases with
        hSame | ⟨hAccepts, hSum⟩
      · exact hSame ▸ hUnsigned
      · have hFill :=
          Decimal.negative_of_isPositive hAccepts.positive
        exact Decimal.add_unsigned hUnsigned hFill hSum

end Order

end OrderWatch
