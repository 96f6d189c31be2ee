import OrderWatch.Proofs.Decimal.Rounding
import OrderWatch.Proofs.Order.Steps

/-
  The totals of a record never fall.

  An update adds at most once to each total, and only amounts
  that are not below zero.  A sum may be rounded, but not to
  less than the total it started from, and an update that is
  broken off leaves each total before or after its sum.

  Main declarations:
    * `Order.Grows`
    * `Order.StatusStep.grows`, `Order.FillStep.grows`
    * `Order.totals_never_fall`
-/

namespace OrderWatch

theorem Decimal.zero_le_of_isPositive
    {d : Decimal}
    (hPositive : d.isPositive = true) :
    .zero ≤ d :=
  Int.le_of_lt (of_decide_eq_true hPositive)

namespace Order

variable {o p : Order} {f : Fill}

/- No total of a record is lower than it was in another one. -/
structure Grows (o p : Order) : Prop where
  base_le : o.executedBase ≤ p.executedBase
  quote_le : o.executedQuote ≤ p.executedQuote
  fees_le :
    ∀ (asset : String) (paid : Decimal),
      o.feesPaid[asset]? = some paid →
        ∃ sum, p.feesPaid[asset]? = some sum ∧ paid ≤ sum

/- Fees that stay are not lower. -/
theorem fees_le_of_eq
    (hSame : p.feesPaid = o.feesPaid)
    (asset : String)
    (paid : Decimal)
    (hPaid : o.feesPaid[asset]? = some paid) :
    ∃ sum, p.feesPaid[asset]? = some sum ∧ paid ≤ sum :=
  ⟨paid, hSame ▸ hPaid, Int.le_refl paid.units⟩

/- A record with the same totals. -/
theorem Grows.of_eq
    (hBase : p.executedBase = o.executedBase)
    (hQuote : p.executedQuote = o.executedQuote)
    (hFees : p.feesPaid = o.feesPaid) :
    o.Grows p where
  base_le := hBase ▸ Int.le_refl o.executedBase.units
  quote_le := hQuote ▸ Int.le_refl o.executedQuote.units
  fees_le := fees_le_of_eq hFees

theorem StatusStep.grows
    {u : StatusUpdate}
    {outcome : Outcome}
    (hStep : o.StatusStep u p outcome) :
    o.Grows p := by
  cases hStep <;> exact .of_eq rfl rfl rfl

------------------------------------------------------------
-- The sums of a fill
------------------------------------------------------------

theorem base_le_of_add
    {total : Decimal}
    (hAccepts : o.Accepts f)
    (hSum : Decimal.add o.executedBase f.base = some total) :
    o.executedBase ≤ total :=
  Decimal.le_add_right
    (Decimal.zero_le_of_isPositive hAccepts.positive) hSum

/- What a fill adds to the quote total is not below zero. -/
theorem zero_le_quoteOf
    (f : Fill) :
    .zero ≤ quoteOf f := by
  unfold quoteOf
  split
  · exact Int.le_refl Decimal.zero.units
  · rename_i hAbove
    exact Int.not_lt.mp hAbove

theorem quote_le_of_add
    {total : Decimal}
    (hSum :
      Decimal.add o.executedQuote (quoteOf f) = some total) :
    o.executedQuote ≤ total :=
  Decimal.le_add_right (zero_le_quoteOf f) hSum

/- The fee of a fill is added to what its asset has so far. -/
theorem fees_le_of_add
    {total : Decimal}
    (hFee : f.fee.amount.isPositive = true)
    (hTotal :
      Decimal.add (o.feePaid f.fee.asset) f.fee.amount =
        some total)
    (hFees :
      p.feesPaid = o.feesPaid.insert f.fee.asset total)
    (asset : String)
    (paid : Decimal)
    (hPaid : o.feesPaid[asset]? = some paid) :
    ∃ sum, p.feesPaid[asset]? = some sum ∧ paid ≤ sum := by
  rw [hFees, Std.ExtTreeMap.getElem?_insert]
  by_cases hSame : f.fee.asset = asset
  · subst hSame
    have hBefore : o.feePaid f.fee.asset = paid := by
      unfold feePaid
      rw [hPaid, Option.getD_some]
    rw [hBefore] at hTotal
    refine ⟨total, by simp, ?_⟩
    exact
      Decimal.le_add_right
        (Decimal.zero_le_of_isPositive hFee) hTotal
  · exact
      ⟨paid, by simpa [hSame] using hPaid,
        Int.le_refl paid.units⟩

theorem FillStep.grows
    {outcome : Except Overflow Outcome}
    (hStep : o.FillStep f p outcome) :
    o.Grows p := by
  cases hStep with
  | brokenQuote base hAccepts hBase =>
      exact
        { base_le := base_le_of_add hAccepts hBase
          quote_le := Int.le_refl o.executedQuote.units
          fees_le := fees_le_of_eq rfl }
  | brokenFee base quote hAccepts hBase hQuote =>
      exact
        { base_le := base_le_of_add hAccepts hBase
          quote_le := quote_le_of_add hQuote
          fees_le := fees_le_of_eq rfl }
  | free base quote hAccepts hBase hQuote =>
      rw [conclude_eq]
      exact
        { base_le := base_le_of_add hAccepts hBase
          quote_le := quote_le_of_add hQuote
          fees_le := fees_le_of_eq rfl }
  | charged base quote total hAccepts hBase hQuote hFee hTotal =>
      rw [conclude_eq]
      exact
        { base_le := base_le_of_add hAccepts hBase
          quote_le := quote_le_of_add hQuote
          fees_le := fees_le_of_add hFee hTotal rfl }
  | _ => exact .of_eq rfl rfl rfl

/-
  Whatever becomes of an update, and whatever the record was,
  no total of the record falls and no asset disappears from
  its fees.  Adding an amount above zero gives no less than
  the total before, also where the sum has to be rounded to
  fewer places than the total has.
-/
theorem totals_never_fall
    (o : Order)
    (u : Update) :
    let p := (o.apply u).1
    o.executedBase ≤ p.executedBase ∧
    o.executedQuote ≤ p.executedQuote ∧
    (∀ (asset : String) (paid : Decimal),
      o.feesPaid[asset]? = some paid →
        ∃ sum, p.feesPaid[asset]? = some sum ∧ paid ≤ sum) ∧
    ∀ total amount sum : Decimal,
      .zero < amount →
      Decimal.add total amount = some sum →
        total ≤ sum := by
  intro p
  have hGrows : o.Grows p := by
    cases u with
    | status u => exact (o.applyStatus_step u).grows
    | fill f => exact (o.applyFill_step f).grows
  refine
    ⟨hGrows.base_le, hGrows.quote_le, hGrows.fees_le, ?_⟩
  intro total amount sum hAmount hSum
  exact Decimal.le_add_right (Int.le_of_lt hAmount) hSum

end Order

end OrderWatch
