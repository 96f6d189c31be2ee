import OrderWatch.Proofs.Order.Accounts

/-
  Fills that are broken off.

  A fill that is accepted breaks off at the first of its sums
  that does not fit.  Its sequence and its name have been
  taken down by then, and the sums before that one have been
  written.  So the record is never as it was, and the fill is
  refused when it comes again.

  Main declarations:
    * `Order.Breaks`, `Order.breaks_of_error`
    * `Order.leftBy`, `Order.applyFill_of_breaks`
    * `Order.Undone`
    * `Order.undone_iff`
-/

namespace OrderWatch

namespace Order

variable {o p : Order} {f : Fill}

------------------------------------------------------------
-- When a fill is broken off
------------------------------------------------------------

/- An accepted fill, one of whose sums does not fit. -/
structure Breaks (o : Order) (f : Fill) : Prop where
  accepts : o.Accepts f
  unfit :
    Decimal.add o.executedBase f.base = none ∨
    Decimal.add o.executedQuote (quoteOf f) = none ∨
    (f.fee.amount.isPositive = true ∧
      Decimal.add (o.feePaid f.fee.asset) f.fee.amount = none)

/- The record that a fill leaves where it is broken off. -/
def leftBy (o : Order) (f : Fill) : Order :=
  match Decimal.add o.executedBase f.base with
  | none => o.taking f
  | some base =>
      match Decimal.add o.executedQuote (quoteOf f) with
      | none => { o.taking f with executedBase := base }
      | some quote => (o.totalled f base quote).charging f

/- A fill that is broken off, and what is left of it. -/
theorem FillStep.breaks
    {why : Overflow}
    (hStep : o.FillStep f p (.error why)) :
    o.Breaks f ∧ p = o.leftBy f ∧ why = .addition := by
  unfold leftBy
  cases hStep with
  | brokenBase hAccepts hBase =>
      exact ⟨⟨hAccepts, .inl hBase⟩, by rw [hBase], rfl⟩
  | brokenQuote base hAccepts hBase hQuote =>
      refine ⟨⟨hAccepts, .inr (.inl hQuote)⟩, ?_, rfl⟩
      rw [hBase, hQuote]
  | brokenFee base quote hAccepts hBase hQuote hFee hTotal =>
      refine
        ⟨⟨hAccepts, .inr (.inr ⟨hFee, hTotal⟩)⟩, ?_, rfl⟩
      rw [hBase, hQuote]

/- A fill whose sums do not all fit is not answered. -/
theorem FillStep.error_of_breaks
    {outcome : Except Overflow Outcome}
    (hStep : o.FillStep f p outcome)
    (hBreaks : o.Breaks f) :
    ∃ why, outcome = .error why := by
  cases hStep with
  | brokenBase => exact ⟨_, rfl⟩
  | brokenQuote => exact ⟨_, rfl⟩
  | brokenFee => exact ⟨_, rfl⟩
  | mismatched hOther =>
      exact absurd hBreaks.accepts.addressed hOther
  | stale last hId hStale =>
      rw [hBreaks.accepts.fresh] at hStale
      contradiction
  | empty hId hFresh hEmpty =>
      rw [hBreaks.accepts.positive] at hEmpty
      contradiction
  | duplicate hId hFresh hPositive hUsed =>
      exact absurd hUsed hBreaks.accepts.unused
  | free base quote hAccepts hBase hQuote hFee =>
      have hUnfit := hBreaks.unfit
      rw [hBase, hQuote, hFee] at hUnfit
      simp at hUnfit
  | charged base quote total hAccepts hBase hQuote hFee hTotal =>
      have hUnfit := hBreaks.unfit
      rw [hBase, hQuote, hTotal] at hUnfit
      simp at hUnfit

theorem applyFill_of_breaks
    (hBreaks : o.Breaks f) :
    o.applyFill f = (o.leftBy f, .error .addition) := by
  have hStep := o.applyFill_step f
  rcases hStep.error_of_breaks hBreaks with ⟨why, hError⟩
  rw [hError] at hStep
  rcases hStep.breaks with ⟨_, hLeft, hWhy⟩
  exact Prod.ext hLeft (hWhy ▸ hError)

theorem breaks_of_error
    {why : Overflow}
    (hError : (o.applyFill f).2 = .error why) :
    o.Breaks f := by
  have hStep := o.applyFill_step f
  rw [hError] at hStep
  exact hStep.breaks.1

------------------------------------------------------------
-- What is left of it
------------------------------------------------------------

/- Whatever has been written, the fill has been taken down. -/
theorem taken_leftBy
    (o : Order)
    (f : Fill) :
    (o.leftBy f).id = o.id ∧
      (o.leftBy f).tradeSequence = some f.sequence ∧
      (o.leftBy f).trades = o.trades.insert f.tradeId := by
  unfold leftBy
  split
  · exact ⟨rfl, rfl, rfl⟩
  · split
    · exact ⟨rfl, rfl, rfl⟩
    · exact ⟨rfl, rfl, rfl⟩

/- The record is not what it was. -/
theorem leftBy_ne
    (hAccepts : o.Accepts f) :
    o.leftBy f ≠ o := by
  intro hSame
  -- An accepted fill has a name that was not taken down.
  have hTrades := (o.taken_leftBy f).2.2
  rw [hSame] at hTrades
  apply hAccepts.unused
  rw [hTrades]
  simp

/- The fill is stale when it comes again. -/
theorem applyFill_leftBy
    (hAccepts : o.Accepts f) :
    (o.leftBy f).applyFill f =
      (o.leftBy f, .ok (.stale f.sequence)) := by
  rcases o.taken_leftBy f with ⟨hId, hSequence, _⟩
  have hOwn : f.orderId = (o.leftBy f).id :=
    hAccepts.addressed.trans hId.symm
  have hStale :
      (o.leftBy f).staleAt .trade f.sequence =
        some f.sequence := by
    unfold staleAt sequenceOf
    rw [hSequence]
    simp
  unfold applyFill
  rw [if_neg (not_not_intro hOwn)]
  simp only [hStale]

/- Under a newer sequence it is taken for a duplicate. -/
theorem applyFill_leftBy_newer
    (hAccepts : o.Accepts f)
    {n : Nat}
    (hNewer : f.sequence < n) :
    ((o.leftBy f).applyFill { f with sequence := n }).2 =
      .ok (.rejected (.duplicateTrade f.tradeId)) := by
  rcases o.taken_leftBy f with ⟨hId, hSequence, hTrades⟩
  have hOwn : f.orderId = (o.leftBy f).id :=
    hAccepts.addressed.trans hId.symm
  have hFresh : (o.leftBy f).staleAt .trade n = none := by
    unfold staleAt sequenceOf
    rw [hSequence]
    simp [hNewer]
  have hUsed : f.tradeId ∈ (o.leftBy f).trades := by
    rw [hTrades]
    simp
  unfold applyFill
  rw [if_neg (not_not_intro hOwn)]
  simp [hFresh, hAccepts.positive, hUsed]

------------------------------------------------------------
-- Undoing
------------------------------------------------------------

/-
  If a fill is broken off, the record is as it was, and the
  fill is not refused as an old one when it comes again.
-/
def Undone (o : Order) (f : Fill) : Prop :=
  ∀ why, (o.applyFill f).2 = .error why →
    let p := (o.applyFill f).1
    p = o ∧
    (∀ last, (p.applyFill f).2 ≠ .ok (.stale last)) ∧
    (p.applyFill f).2 ≠
      .ok (.rejected (.duplicateTrade f.tradeId))

/-
  A fill is undone exactly if none of its sums fails to fit,
  so that there is nothing to undo.  Otherwise the record
  keeps the sequence and the name of the fill, and the sums
  up to the one that does not fit; the fill is stale when it
  comes again, and a duplicate under any newer sequence.
-/
theorem undone_iff
    (o : Order)
    (f : Fill) :
    (o.Undone f ↔ ¬ o.Breaks f) ∧
    (o.Breaks f →
      o.applyFill f = (o.leftBy f, .error .addition) ∧
      o.leftBy f ≠ o ∧
      (o.leftBy f).applyFill f =
        (o.leftBy f, .ok (.stale f.sequence)) ∧
      ∀ n, f.sequence < n →
        ((o.leftBy f).applyFill { f with sequence := n }).2 =
          .ok (.rejected (.duplicateTrade f.tradeId))) := by
  refine ⟨⟨?_, ?_⟩, ?_⟩
  · intro hUndone hBreaks
    have hBroken := applyFill_of_breaks hBreaks
    have hSame := (hUndone .addition (by rw [hBroken])).1
    rw [hBroken] at hSame
    exact leftBy_ne hBreaks.accepts hSame
  · intro hWhole why hError
    exact absurd (breaks_of_error hError) hWhole
  · intro hBreaks
    exact
      ⟨applyFill_of_breaks hBreaks, leftBy_ne hBreaks.accepts,
        applyFill_leftBy hBreaks.accepts,
        fun _ hNewer =>
          applyFill_leftBy_newer hBreaks.accepts hNewer⟩

/- The largest decimal. -/
def largest : Decimal :=
  (Decimal.ofParts? false (Decimal.bound - 1) 0).getD .zero

/- A fill of one unit at the highest quote amount. -/
def dearFill (tradeId : TradeId) (sequence : Nat) : Fill :=
  { sampleFill with tradeId, sequence, quote := largest }

/-
  A second fill at the highest quote amount is broken off.
  Its base amount is counted and its quote amount is not, and
  when it comes again it is stale.
-/
theorem not_undone_dearFill :
    let o :=
      ((ofRequest sampleRequest).applyFill (dearFill "t" 1)).1
    let p := (o.applyFill (dearFill "s" 2)).1
    ¬ o.Undone (dearFill "s" 2) ∧
      o.executedBase < p.executedBase ∧
      p.executedQuote = o.executedQuote ∧
      (p.applyFill (dearFill "s" 2)).2 = .ok (.stale 2) := by
  intro o p
  refine
    ⟨?_, by decide +kernel, by decide +kernel,
      by decide +kernel⟩
  intro hUndone
  have hSame := (hUndone .addition (by decide +kernel)).1
  have hSequence := congrArg Order.tradeSequence hSame
  revert hSequence
  decide +kernel

end Order

end OrderWatch
