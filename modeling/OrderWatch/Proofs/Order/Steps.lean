import OrderWatch.Order

/-
  What an update can do to a record.

  Every way that an update on either channel can go is named
  once, with the record it leaves and its outcome.  Facts
  about updates are proved by going through these ways.

  Main declarations:
    * `Order.heard`, `Order.taking`
    * `Order.StatusStep`, `Order.applyStatus_step`
    * `Order.Accepts`
    * `Order.FillStep`, `Order.applyFill_step`
-/

namespace OrderWatch

namespace Order

------------------------------------------------------------
-- Status updates
------------------------------------------------------------

/- The record once a status update has been taken note of. -/
def heard (o : Order) (u : StatusUpdate) : Order :=
  { o with statusSequence := some u.sequence }.noted
    u.time u.venueId

/- The ways that a status update can go. -/
inductive StatusStep
    (o : Order)
    (u : StatusUpdate) : Order → Outcome → Prop where
  | mismatched
      (hOther : u.orderId ≠ o.id) :
      StatusStep o u o (.rejected .mismatchedOrder)
  | stale
      (last : Nat)
      (hId : u.orderId = o.id)
      (hStale : o.staleAt .status u.sequence = some last) :
      StatusStep o u o (.stale last)
  | unchanged
      (hId : u.orderId = o.id)
      (hFresh : o.staleAt .status u.sequence = none)
      (hSame : u.status = o.status) :
      StatusStep o u (o.heard u) .unchanged
  | moved
      (hId : u.orderId = o.id)
      (hFresh : o.staleAt .status u.sequence = none)
      (hOther : u.status ≠ o.status)
      (hMove : o.status.canBecome u.status = true) :
      StatusStep o u { o.heard u with status := u.status }
        .applied
  | refused
      (hId : u.orderId = o.id)
      (hFresh : o.staleAt .status u.sequence = none)
      (hOther : u.status ≠ o.status)
      (hMove : o.status.canBecome u.status = false) :
      StatusStep o u (o.heard u)
        (.rejected (.invalidTransition o.status u.status))

theorem applyStatus_step
    (o : Order)
    (u : StatusUpdate) :
    o.StatusStep u (o.applyStatus u).1 (o.applyStatus u).2 := by
  by_cases hId : u.orderId = o.id
  · cases hStale : o.staleAt .status u.sequence with
    | some last =>
        have hStep : o.applyStatus u = (o, .stale last) := by
          simp [applyStatus, hId, hStale]
        rw [hStep]
        exact .stale last hId hStale
    | none =>
        by_cases hSame : u.status = o.status
        · have hStep :
              o.applyStatus u = (o.heard u, .unchanged) := by
            simp [applyStatus, hId, hStale, hSame, heard, noted]
          rw [hStep]
          exact .unchanged hId hStale hSame
        · cases hMove : o.status.canBecome u.status with
          | true =>
              have hStep :
                  o.applyStatus u =
                    ({ o.heard u with status := u.status },
                      .applied) := by
                simp [applyStatus, hId, hStale, hSame, hMove,
                  heard, noted]
              rw [hStep]
              exact .moved hId hStale hSame hMove
          | false =>
              have hStep :
                  o.applyStatus u =
                    (o.heard u,
                      .rejected
                        (.invalidTransition o.status u.status)) := by
                simp [applyStatus, hId, hStale, hSame, hMove,
                  heard, noted]
              rw [hStep]
              exact .refused hId hStale hSame hMove
  · have hStep :
        o.applyStatus u = (o, .rejected .mismatchedOrder) := by
      simp [applyStatus, hId]
    rw [hStep]
    exact .mismatched hId

------------------------------------------------------------
-- Fills
------------------------------------------------------------

/- The record once the name of a fill has been taken down. -/
def taking (o : Order) (f : Fill) : Order :=
  { o with
    tradeSequence := some f.sequence
    trades := o.trades.insert f.tradeId }.noted
      f.time f.venueId

/- What a fill adds to the quote total. -/
def quoteOf (f : Fill) : Decimal :=
  if f.quote < .zero then .zero else f.quote

/- A fill that is accepted by a record. -/
structure Accepts (o : Order) (f : Fill) : Prop where
  addressed : f.orderId = o.id
  fresh : o.staleAt .trade f.sequence = none
  positive : f.base.isPositive = true
  unused : f.tradeId ∉ o.trades

/- The record with the totals after a fill. -/
def totalled
    (o : Order)
    (f : Fill)
    (base quote : Decimal) : Order :=
  { o.taking f with
    executedBase := base
    executedQuote := quote }

/- The record whose first fee may be that of a fill. -/
def charging (o : Order) (f : Fill) : Order :=
  { o with feeAsset := o.feeAsset.or (some f.fee.asset) }

/- The record with the fees after a fill. -/
def charged
    (o : Order)
    (f : Fill)
    (total : Decimal) : Order :=
  { o.charging f with
    feesPaid := o.feesPaid.insert f.fee.asset total }

/- A fill is the last one, and may complete the order. -/
theorem conclude_eq
    (o : Order)
    (f : Fill) :
    o.conclude f =
      { o with
        lastPrice := f.price
        lastAmount := f.base
        lastFee := some f.fee
        status :=
          if o.amount ≤ o.executedBase
              ∧ o.status.canBecome .filled = true then
            .filled
          else
            o.status } := by
  unfold conclude
  by_cases hReached :
      o.amount ≤ o.executedBase ∧
        o.status.canBecome .filled = true
  · simp only [if_pos hReached]
  · simp only [if_neg hReached]

/- The ways that a fill can go. -/
inductive FillStep
    (o : Order)
    (f : Fill) : Order → Except Overflow Outcome → Prop where
  | mismatched
      (hOther : f.orderId ≠ o.id) :
      FillStep o f o (.ok (.rejected .mismatchedOrder))
  | stale
      (last : Nat)
      (hId : f.orderId = o.id)
      (hStale : o.staleAt .trade f.sequence = some last) :
      FillStep o f o (.ok (.stale last))
  | empty
      (hId : f.orderId = o.id)
      (hFresh : o.staleAt .trade f.sequence = none)
      (hEmpty : f.base.isPositive = false) :
      FillStep o f { o with tradeSequence := some f.sequence }
        (.ok (.rejected .emptyFill))
  | duplicate
      (hId : f.orderId = o.id)
      (hFresh : o.staleAt .trade f.sequence = none)
      (hPositive : f.base.isPositive = true)
      (hUsed : f.tradeId ∈ o.trades) :
      FillStep o f { o with tradeSequence := some f.sequence }
        (.ok (.rejected (.duplicateTrade f.tradeId)))
  | brokenBase
      (hAccepts : o.Accepts f)
      (hBase : Decimal.add o.executedBase f.base = none) :
      FillStep o f (o.taking f) (.error .addition)
  | brokenQuote
      (base : Decimal)
      (hAccepts : o.Accepts f)
      (hBase : Decimal.add o.executedBase f.base = some base)
      (hQuote :
        Decimal.add o.executedQuote (quoteOf f) = none) :
      FillStep o f { o.taking f with executedBase := base }
        (.error .addition)
  | brokenFee
      (base quote : Decimal)
      (hAccepts : o.Accepts f)
      (hBase : Decimal.add o.executedBase f.base = some base)
      (hQuote :
        Decimal.add o.executedQuote (quoteOf f) = some quote)
      (hFee : f.fee.amount.isPositive = true)
      (hTotal :
        Decimal.add (o.feePaid f.fee.asset) f.fee.amount =
          none) :
      FillStep o f ((o.totalled f base quote).charging f)
        (.error .addition)
  | free
      (base quote : Decimal)
      (hAccepts : o.Accepts f)
      (hBase : Decimal.add o.executedBase f.base = some base)
      (hQuote :
        Decimal.add o.executedQuote (quoteOf f) = some quote)
      (hFee : f.fee.amount.isPositive = false) :
      FillStep o f ((o.totalled f base quote).conclude f)
        (.ok .applied)
  | charged
      (base quote total : Decimal)
      (hAccepts : o.Accepts f)
      (hBase : Decimal.add o.executedBase f.base = some base)
      (hQuote :
        Decimal.add o.executedQuote (quoteOf f) = some quote)
      (hFee : f.fee.amount.isPositive = true)
      (hTotal :
        Decimal.add (o.feePaid f.fee.asset) f.fee.amount =
          some total) :
      FillStep o f
        (((o.totalled f base quote).charged f total).conclude f)
        (.ok .applied)

/- An accepted fill is broken off or executed. -/
theorem execute_step
    {o : Order}
    {f : Fill}
    (hAccepts : o.Accepts f) :
    o.FillStep f
      ({ o with tradeSequence := some f.sequence }.execute f).1
      ({ o with
          tradeSequence := some f.sequence }.execute f).2 := by
  unfold execute addBase
  simp only [noted]
  cases hBase : Decimal.add o.executedBase f.base with
  | none => exact .brokenBase hAccepts hBase
  | some base =>
      unfold addQuote
      simp only
      cases hQuote : Decimal.add o.executedQuote (quoteOf f) with
      | none =>
          unfold quoteOf at hQuote
          simp only [hQuote]
          exact .brokenQuote base hAccepts hBase hQuote
      | some quote =>
          have hSum := hQuote
          unfold quoteOf at hSum
          simp only [hSum]
          unfold addFee
          simp only [feePaid]
          cases hFee : f.fee.amount.isPositive with
          | false => exact .free base quote hAccepts hBase hQuote hFee
          | true =>
              simp only [if_true]
              cases hTotal :
                  Decimal.add (o.feePaid f.fee.asset)
                    f.fee.amount with
              | none =>
                  have hNone := hTotal
                  unfold feePaid at hNone
                  simp only [hNone]
                  exact .brokenFee base quote hAccepts hBase
                    hQuote hFee hTotal
              | some total =>
                  have hSome := hTotal
                  unfold feePaid at hSome
                  simp only [hSome]
                  exact .charged base quote total hAccepts hBase
                    hQuote hFee hTotal

theorem applyFill_step
    (o : Order)
    (f : Fill) :
    o.FillStep f (o.applyFill f).1 (o.applyFill f).2 := by
  unfold applyFill
  by_cases hId : f.orderId = o.id
  · rw [if_neg (not_not_intro hId)]
    cases hStale : o.staleAt .trade f.sequence with
    | some last => exact .stale last hId hStale
    | none =>
        cases hPositive : f.base.isPositive with
        | false => exact .empty hId hStale hPositive
        | true =>
            by_cases hUsed : f.tradeId ∈ o.trades
            · simp only [Bool.not_true, hUsed, if_true]
              exact .duplicate hId hStale hPositive hUsed
            · simp only [Bool.not_true, hUsed]
              exact execute_step
                ⟨hId, hStale, hPositive, hUsed⟩
  · rw [if_pos hId]
    exact .mismatched hId

end Order

end OrderWatch
