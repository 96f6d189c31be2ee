import Mathlib.Algebra.BigOperators.Ring.List
import Mathlib.Algebra.Order.BigOperators.Group.List
import OrderWatch.Proofs.Decimal.Value
import OrderWatch.Proofs.Order.Filling

/-
  The average price of an order.

  As long as no total loses a digit, the totals of a record
  are exact sums over the fills that have been executed.  If
  each fill was made at a price within some bounds, so were
  all of them together, and the quotient of the totals keeps
  to the bounds even where it has to be rounded.

  Main declarations:
    * `Order.TotalsExactly`, `Order.Lossless`
    * `Fill.PricedWithin`
    * `Order.Sums`, `Order.Sums.applyAll`
    * `Order.averagePrice_between`
-/

namespace OrderWatch

/-
  The price at which a fill was made, its quote amount by its
  base amount, is not below the one and not above the other.
-/
def Fill.PricedWithin (f : Fill) (low high : Decimal) : Prop :=
  low.value * f.base.value ≤ f.quote.value ∧
    f.quote.value ≤ high.value * f.base.value

/- In whole numbers of units. -/
theorem Fill.pricedWithin_iff
    (f : Fill)
    (low high : Decimal) :
    f.PricedWithin low high ↔
      low.units * f.base.units ≤
          f.quote.units * 10 ^ Decimal.maxScale ∧
        f.quote.units * 10 ^ Decimal.maxScale ≤
          high.units * f.base.units := by
  unfold PricedWithin
  rw [Decimal.mul_value_eq, Decimal.mul_value_eq,
    f.quote.value_eq_mul,
    div_le_div_iff_of_pos_right (by positivity),
    div_le_div_iff_of_pos_right (by positivity), Int.cast_le,
    Int.cast_le]

instance
    (f : Fill)
    (low high : Decimal) :
    Decidable (f.PricedWithin low high) :=
  decidable_of_iff _ (f.pricedWithin_iff low high).symm

namespace Order

variable {o p : Order} {f : Fill} {fills : List Fill}

------------------------------------------------------------
-- Exact totals
------------------------------------------------------------

/- Both totals take up a fill without a loss of digits. -/
def TotalsExactly (o : Order) (f : Fill) : Prop :=
  o.executedBase.AddsExactly f.base ∧
    o.executedQuote.AddsExactly (quoteOf f)

instance
    (o : Order)
    (f : Fill) :
    Decidable (o.TotalsExactly f) :=
  inferInstanceAs (Decidable (_ ∧ _))

/- No total loses a digit in some updates. -/
def Lossless (o : Order) : List Update → Prop
  | [] => True
  | .status u :: us => (o.apply (.status u)).1.Lossless us
  | .fill f :: us =>
      (o.Accepts f → o.TotalsExactly f) ∧
        (o.apply (.fill f)).1.Lossless us

instance decidableLossless :
    (o : Order) → (us : List Update) → Decidable (o.Lossless us)
  | _, [] => inferInstanceAs (Decidable True)
  | o, .status u :: us =>
      decidableLossless (o.apply (.status u)).1 us
  | o, .fill f :: us =>
      have := decidableLossless (o.apply (.fill f)).1 us
      inferInstanceAs
        (Decidable
          ((o.Accepts f → o.TotalsExactly f) ∧
            (o.apply (.fill f)).1.Lossless us))

theorem lossless_cons
    {u : Update}
    {us : List Update} :
    o.Lossless (u :: us) ↔
      (∀ f, u = .fill f → o.Accepts f → o.TotalsExactly f) ∧
        (o.apply u).1.Lossless us := by
  cases u with
  | status u => simp [Lossless]
  | fill f => simp [Lossless]

/- The totals are those of some fills, each above zero. -/
structure Sums (o : Order) (fills : List Fill) : Prop where
  base_eq :
    o.executedBase.value =
      (fills.map fun f => f.base.value).sum
  quote_eq :
    o.executedQuote.value =
      (fills.map fun f => (quoteOf f).value).sum
  base_pos : ∀ f ∈ fills, 0 < f.base.value

namespace Sums

theorem ofRequest
    (r : OrderRequest) :
    (Order.ofRequest r).Sums [] where
  base_eq := Decimal.value_zero
  quote_eq := Decimal.value_zero
  base_pos := by simp

theorem same
    (h : o.Sums fills)
    (hSame : o.SameAccounts p) :
    p.Sums fills where
  base_eq := hSame.base_eq ▸ h.base_eq
  quote_eq := hSame.quote_eq ▸ h.quote_eq
  base_pos := h.base_pos

theorem execute
    (h : o.Sums fills)
    (hExecutes : o.Executes f p)
    (hExact : o.TotalsExactly f) :
    p.Sums (fills ++ [f]) where
  base_eq := by
    rw [hExact.1.value_eq hExecutes.base_eq, h.base_eq]
    simp
  quote_eq := by
    rw [hExact.2.value_eq hExecutes.quote_eq, h.quote_eq]
    simp
  base_pos := by
    intro g hMem
    rcases List.mem_append.mp hMem with hOld | hNew
    · exact h.base_pos g hOld
    · rw [List.mem_singleton.mp hNew, Decimal.value_pos_iff]
      exact hExecutes.accepts.positive

/- An update that fits adds what it executes to the sums. -/
theorem apply
    {log : Outcomes}
    (h : o.Sums (executed log))
    {u : Update}
    (hExact :
      ∀ f, u = .fill f → o.Accepts f → o.TotalsExactly f)
    (hFits : ∀ why, (o.apply u).2 ≠ .error why) :
    (o.apply u).1.Sums
      (executed (log ++ [(u, (o.apply u).2)])) := by
  rw [executed_append]
  cases u with
  | status u =>
      change (o.applyStatus u).1.Sums (executed log ++ [])
      rw [List.append_nil]
      exact h.same (o.applyStatus_step u).sameAccounts
  | fill f =>
      cases hOutcome : (o.apply (.fill f)).2 with
      | error why => exact absurd hOutcome (hFits why)
      | ok outcome =>
          by_cases hApplied : outcome = .applied
          · subst hApplied
            have hEnd : (o.applyFill f).2 = .ok .applied :=
              hOutcome
            have hStep := o.applyFill_step f
            rw [hEnd] at hStep
            have hExecutes := hStep.executes
            exact
              h.execute hExecutes
                (hExact f rfl hExecutes.accepts)
          · have hSame :=
              sameAccounts_of_refused hOutcome hApplied
            have hNone :
                executedFill? (.fill f, .ok outcome) = none := by
              cases outcome with
              | applied => contradiction
              | _ => rfl
            rw [hNone, Option.toList_none, List.append_nil]
            exact h.same hSame

theorem applyAll
    {log : Outcomes}
    (h : o.Sums (executed log))
    {us : List Update}
    (hExact : o.Lossless us)
    (hFits : ∀ e ∈ o.outcomes us, ∀ why, e.2 ≠ .error why) :
    (o.applyAll us).Sums (executed (log ++ o.outcomes us)) := by
  induction us generalizing o log with
  | nil => simpa [Order.outcomes, Order.applyAll] using h
  | cons u us ih =>
      rcases lossless_cons.mp hExact with ⟨hNow, hLater⟩
      have hFirst :=
        h.apply hNow
          (hFits (u, (o.apply u).2)
            (by simp [Order.outcomes]))
      have hRest :=
        ih hFirst hLater fun e hMem =>
          hFits e (by simp [Order.outcomes, hMem])
      simpa [Order.outcomes, Order.applyAll] using hRest

------------------------------------------------------------
-- Sums within bounds
------------------------------------------------------------

/- Something has been executed once there are fills. -/
theorem base_pos_iff
    (h : o.Sums fills) :
    0 < o.executedBase.value ↔ fills ≠ [] := by
  rw [h.base_eq]
  constructor
  · rintro hPositive rfl
    simp at hPositive
  · intro hSome
    apply List.sum_pos
    · simpa using h.base_pos
    · simpa using hSome

/-
  What fills within bounds have in common holds of their sums.
-/
theorem between
    {low high : Decimal}
    (h : o.Sums fills)
    (hLow : 0 ≤ low.value)
    (hPriced : ∀ f ∈ fills, f.PricedWithin low high) :
    low.value * o.executedBase.value ≤ o.executedQuote.value ∧
      o.executedQuote.value ≤
        high.value * o.executedBase.value := by
  have hQuote :
      ∀ f ∈ fills, (quoteOf f).value = f.quote.value := by
    intro f hMem
    have hBase := mul_nonneg hLow (h.base_pos f hMem).le
    have hAbove : ¬ f.quote < .zero := by
      have hQuote := hBase.trans (hPriced f hMem).1
      rw [Decimal.value_nonneg_iff] at hQuote
      exact Int.not_lt.mpr hQuote
    unfold quoteOf
    rw [if_neg hAbove]
  rw [h.base_eq, h.quote_eq, List.map_congr_left hQuote,
    ← List.sum_map_mul_left, ← List.sum_map_mul_left]
  exact
    ⟨List.sum_le_sum fun f hMem => (hPriced f hMem).1,
      List.sum_le_sum fun f hMem => (hPriced f hMem).2⟩

end Sums

theorem averagePrice_eq_none_iff
    (o : Order) :
    o.averagePrice = none ↔
      o.executedBase.isPositive = false := by
  unfold averagePrice
  cases o.executedBase.isPositive with
  | false => simp
  | true =>
      simp only [if_true]
      split <;> simp

/-
  A new order is given any updates, none of which is broken
  off, and no total loses a digit.  If the price of each fill
  that is executed lies between two decimals, neither of them
  below zero, the order has an average price exactly if it has
  been filled, and this price lies between them as well, also
  where the quotient has to be rounded.
-/
theorem averagePrice_between
    (r : OrderRequest)
    (low high : Decimal)
    (hLow : .zero ≤ low)
    (us : List Update)
    (hFits :
      ∀ e ∈ (ofRequest r).outcomes us,
        ∀ why, e.2 ≠ .error why)
    (hExact : (ofRequest r).Lossless us)
    (hPriced :
      ∀ f ∈ executed ((ofRequest r).outcomes us),
        f.PricedWithin low high) :
    let o := (ofRequest r).applyAll us
    let fills := executed ((ofRequest r).outcomes us)
    (o.averagePrice = none ↔ fills = []) ∧
    (fills ≠ [] →
      ∃ price, o.averagePrice = some (.ok price) ∧
        low ≤ price ∧ price ≤ high) := by
  intro o fills
  have hSums : o.Sums fills := by
    have hNone : (ofRequest r).Sums (executed []) :=
      Sums.ofRequest r
    exact hNone.applyAll hExact hFits
  have hNonneg := (Decimal.value_nonneg_iff low).mpr hLow
  rcases hSums.between hNonneg hPriced with ⟨hLower, hUpper⟩
  constructor
  · rw [averagePrice_eq_none_iff, ← Bool.not_eq_true,
      ← Decimal.value_pos_iff, hSums.base_pos_iff, not_not]
  · intro hSome
    have hPositive := hSums.base_pos_iff.mpr hSome
    rcases
      Decimal.div_between hNonneg hPositive hLower hUpper with
      ⟨price, hQuotient, hBounds⟩
    refine ⟨price, ?_, hBounds⟩
    unfold averagePrice
    rw [if_pos ((Decimal.value_pos_iff _).mp hPositive),
      hQuotient]

/- Three units at two prices, for one in all. -/
def thirds : List Update :=
  [.fill
      { sampleFill with
        quote := (Decimal.ofParts? false 3 1).getD .zero },
    .fill
      { sampleFill with
        tradeId := "s", sequence := 1
        base := (Decimal.ofInt? 2).getD .zero
        quote := (Decimal.ofParts? false 7 1).getD .zero }]

theorem outcomes_thirds :
    ∀ e ∈ (ofRequest sampleRequest).outcomes thirds,
      ∀ why, e.2 ≠ .error why := by
  have hAll :
      ((ofRequest sampleRequest).outcomes thirds).all
          (fun e => e.2.isOk) = true := by
    decide +kernel
  intro e hMem why hError
  have hOk := List.all_eq_true.mp hAll e hMem
  rw [hError] at hOk
  contradiction

/- A third is rounded, and lies between the two prices. -/
theorem averagePrice_between_thirds :
    let low := (Decimal.ofParts? false 3 1).getD .zero
    let high := (Decimal.ofParts? false 35 2).getD .zero
    let new := ofRequest sampleRequest
    let o := new.applyAll thirds
    let fills := executed (new.outcomes thirds)
    .zero ≤ low ∧
      new.Lossless thirds ∧
      (∀ f ∈ fills, f.PricedWithin low high) ∧
      fills.length = 2 ∧
      ∃ price, o.averagePrice = some (.ok price) ∧
        low ≤ price ∧ price ≤ high ∧
        price.units * 3 < 10 ^ Decimal.maxScale := by
  intro low high new o fills
  have hLow : .zero ≤ low := by decide
  have hExact : new.Lossless thirds := by decide +kernel
  have hPriced : ∀ f ∈ fills, f.PricedWithin low high := by
    decide +kernel
  have hTwo : fills.length = 2 := by decide +kernel
  have hBetween :=
    averagePrice_between sampleRequest low high hLow thirds
      outcomes_thirds hExact hPriced
  have hSome : fills ≠ [] := by
    intro hNone
    rw [hNone] at hTwo
    contradiction
  rcases hBetween.2 hSome with ⟨price, hPrice, hAbove, hBelow⟩
  refine
    ⟨hLow, hExact, hPriced, hTwo, price, hPrice, hAbove, hBelow,
      ?_⟩
  have hThird :
      ∀ p ∈ o.averagePrice, ∀ q ∈ p.toOption,
        q.units * 3 < 10 ^ Decimal.maxScale := by
    decide +kernel
  exact hThird _ hPrice price rfl

end Order

end OrderWatch
