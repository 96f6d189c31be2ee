import Mathlib.Data.List.Nodup
import OrderWatch.Proofs.Order.Log

/-
  The totals of a record as sums over its fills.

  A record that has just been requested is given updates on
  both channels, in any order.  Its totals, its fees and its
  last fill are then those of the fills that have been
  executed, and these can be told from the updates alone: by
  their sequences, their amounts and their names.

  Main declarations:
    * `total`, `feesIn`
    * `Order.Executes`
    * `Order.Accounts`, `Order.Accounts.execute`
    * `Order.Hears`
    * `Order.accounts_ofRequest`
-/

namespace OrderWatch

------------------------------------------------------------
-- Sums
------------------------------------------------------------

/- The sum of amounts from the left, if it always fits. -/
def total (amounts : List Decimal) : Option Decimal :=
  amounts.foldlM Decimal.add .zero

theorem total_append
    {amounts : List Decimal}
    {sum : Decimal}
    (hSum : total amounts = some sum)
    (amount : Decimal) :
    total (amounts ++ [amount]) = Decimal.add sum amount := by
  unfold total at hSum ⊢
  rw [List.foldlM_append, hSum]
  simp

/- Whether a fill is charged a fee in an asset. -/
def chargesIn (asset : String) (f : Fill) : Bool :=
  f.fee.asset = asset && f.fee.amount.isPositive

/- The fees above zero of some fills in an asset. -/
def feesIn (asset : String) (fills : List Fill) : List Decimal :=
  (fills.filter (chargesIn asset)).map fun f => f.fee.amount

theorem feesIn_append
    (asset : String)
    (fills : List Fill)
    (f : Fill) :
    feesIn asset (fills ++ [f]) =
      feesIn asset fills ++
        if chargesIn asset f then [f.fee.amount] else [] := by
  unfold feesIn
  rw [List.filter_append, List.map_append]
  cases hCharge : chargesIn asset f <;> simp [hCharge]

theorem feesIn_ne_nil_iff
    (asset : String)
    (fills : List Fill) :
    feesIn asset fills ≠ [] ↔
      ∃ f ∈ fills, f.fee.asset = asset ∧
        f.fee.amount.isPositive = true := by
  unfold feesIn
  rw [Ne, List.map_eq_nil_iff, List.filter_eq_nil_iff]
  simp [chargesIn]

namespace Order

variable {o p : Order} {f : Fill}

------------------------------------------------------------
-- Executed fills
------------------------------------------------------------

/- What an executed fill has made of a record. -/
structure Executes (o : Order) (f : Fill) (p : Order) :
    Prop where
  accepts : o.Accepts f
  base_eq :
    Decimal.add o.executedBase f.base = some p.executedBase
  quote_eq :
    Decimal.add o.executedQuote (quoteOf f) =
      some p.executedQuote
  trades_eq : p.trades = o.trades.insert f.tradeId
  sequence_eq : p.tradeSequence = some f.sequence
  lastPrice_eq : p.lastPrice = f.price
  lastAmount_eq : p.lastAmount = f.base
  lastFee_eq : p.lastFee = some f.fee
  free :
    f.fee.amount.isPositive = false →
      p.feeAsset = o.feeAsset ∧ p.feesPaid = o.feesPaid
  charged :
    f.fee.amount.isPositive = true →
      p.feeAsset = o.feeAsset.or (some f.fee.asset) ∧
      ∃ sum,
        Decimal.add (o.feePaid f.fee.asset) f.fee.amount =
          some sum ∧
        p.feesPaid = o.feesPaid.insert f.fee.asset sum

theorem FillStep.executes
    (hStep : o.FillStep f p (.ok .applied)) :
    o.Executes f p := by
  cases hStep with
  | free base quote hAccepts hBase hQuote hFee =>
      rw [conclude_eq]
      exact
        { accepts := hAccepts
          base_eq := hBase
          quote_eq := hQuote
          trades_eq := rfl
          sequence_eq := rfl
          lastPrice_eq := rfl
          lastAmount_eq := rfl
          lastFee_eq := rfl
          free := fun _ => ⟨rfl, rfl⟩
          charged := by
            intro hPositive
            rw [hFee] at hPositive
            contradiction }
  | charged base quote sum hAccepts hBase hQuote hFee hTotal =>
      rw [conclude_eq]
      exact
        { accepts := hAccepts
          base_eq := hBase
          quote_eq := hQuote
          trades_eq := rfl
          sequence_eq := rfl
          lastPrice_eq := rfl
          lastAmount_eq := rfl
          lastFee_eq := rfl
          free := by
            intro hFree
            rw [hFee] at hFree
            contradiction
          charged := fun _ => ⟨rfl, sum, hTotal, rfl⟩ }

/- Two records with the same executed fills. -/
structure SameAccounts (o p : Order) : Prop where
  base_eq : p.executedBase = o.executedBase
  quote_eq : p.executedQuote = o.executedQuote
  feeAsset_eq : p.feeAsset = o.feeAsset
  feesPaid_eq : p.feesPaid = o.feesPaid
  trades_eq : p.trades = o.trades
  lastPrice_eq : p.lastPrice = o.lastPrice
  lastAmount_eq : p.lastAmount = o.lastAmount
  lastFee_eq : p.lastFee = o.lastFee

/- A fill that is refused leaves the accounts alone. -/
theorem FillStep.sameAccounts
    {outcome : Outcome}
    (hStep : o.FillStep f p (.ok outcome))
    (hOther : outcome ≠ .applied) :
    o.SameAccounts p := by
  cases hStep with
  | free => contradiction
  | charged => contradiction
  | _ => constructor <;> rfl

theorem StatusStep.sameAccounts
    {u : StatusUpdate}
    {outcome : Outcome}
    (hStep : o.StatusStep u p outcome) :
    o.SameAccounts p := by
  cases hStep <;> constructor <;> rfl

/- An update that is refused leaves the accounts alone. -/
theorem sameAccounts_of_refused
    {u : Update}
    {outcome : Outcome}
    (hOutcome : (o.apply u).2 = .ok outcome)
    (hRefused : outcome ≠ .applied) :
    o.SameAccounts (o.apply u).1 := by
  cases u with
  | status u => exact (o.applyStatus_step u).sameAccounts
  | fill f =>
      have hStep := o.applyFill_step f
      have hAnswer : (o.applyFill f).2 = .ok outcome := hOutcome
      rw [hAnswer] at hStep
      exact hStep.sameAccounts hRefused

theorem StatusStep.tradeSequence_eq
    {u : StatusUpdate}
    {outcome : Outcome}
    (hStep : o.StatusStep u p outcome) :
    p.tradeSequence = o.tradeSequence := by
  cases hStep <;> rfl

------------------------------------------------------------
-- Accounts
------------------------------------------------------------

/- The accounts of a record are those of some fills. -/
structure Accounts (o : Order) (fills : List Fill) : Prop where
  names_nodup : (fills.map Fill.tradeId).Nodup
  trades_iff :
    ∀ id, id ∈ o.trades ↔ id ∈ fills.map Fill.tradeId
  base_eq : total (fills.map Fill.base) = some o.executedBase
  quote_eq : total (fills.map quoteOf) = some o.executedQuote
  entry_iff :
    ∀ asset : String,
      asset ∈ o.feesPaid ↔ feesIn asset fills ≠ []
  fee_eq :
    ∀ asset, total (feesIn asset fills) = some (o.feePaid asset)
  feeAsset_eq :
    o.feeAsset =
      (fills.find? fun f => f.fee.amount.isPositive).map
        fun f => f.fee.asset
  lastPrice_eq :
    o.lastPrice = (fills.getLast?.map Fill.price).getD .zero
  lastAmount_eq :
    o.lastAmount = (fills.getLast?.map Fill.base).getD .zero
  lastFee_eq : o.lastFee = fills.getLast?.map Fill.fee

namespace Accounts

variable {fills : List Fill}

theorem ofRequest
    (r : OrderRequest) :
    (Order.ofRequest r).Accounts [] where
  names_nodup := List.nodup_nil
  trades_iff := by
    intro id
    simp [Order.ofRequest]
  base_eq := rfl
  quote_eq := rfl
  entry_iff := by
    intro asset
    simp [Order.ofRequest, feesIn]
  fee_eq := by
    intro asset
    simp [Order.ofRequest, feesIn, feePaid, total]
  feeAsset_eq := rfl
  lastPrice_eq := rfl
  lastAmount_eq := rfl
  lastFee_eq := rfl

theorem same
    (h : o.Accounts fills)
    (hSame : o.SameAccounts p) :
    p.Accounts fills where
  names_nodup := h.names_nodup
  trades_iff := hSame.trades_eq ▸ h.trades_iff
  base_eq := hSame.base_eq ▸ h.base_eq
  quote_eq := hSame.quote_eq ▸ h.quote_eq
  entry_iff := hSame.feesPaid_eq ▸ h.entry_iff
  fee_eq := by
    intro asset
    unfold feePaid
    rw [hSame.feesPaid_eq]
    exact h.fee_eq asset
  feeAsset_eq := hSame.feeAsset_eq ▸ h.feeAsset_eq
  lastPrice_eq := hSame.lastPrice_eq ▸ h.lastPrice_eq
  lastAmount_eq := hSame.lastAmount_eq ▸ h.lastAmount_eq
  lastFee_eq := hSame.lastFee_eq ▸ h.lastFee_eq

/- The fee total of an asset after a fill. -/
theorem feePaid_execute
    (hExecutes : o.Executes f p)
    (asset : String) :
    (if chargesIn asset f then
        Decimal.add (o.feePaid asset) f.fee.amount
      else
        some (o.feePaid asset)) = some (p.feePaid asset) := by
  cases hPositive : f.fee.amount.isPositive with
  | false =>
      have hFree := (hExecutes.free hPositive).2
      simp [chargesIn, hPositive, feePaid, hFree]
  | true =>
      rcases hExecutes.charged hPositive with
        ⟨_, sum, hSum, hPaid⟩
      unfold feePaid at hSum ⊢
      rw [hPaid, Std.ExtTreeMap.getElem?_insert]
      by_cases hSame : f.fee.asset = asset
      · subst hSame
        simp [chargesIn, hPositive, hSum]
      · simp [chargesIn, hSame]

theorem mem_feesPaid_execute
    (hExecutes : o.Executes f p)
    (asset : String) :
    asset ∈ p.feesPaid ↔
      asset ∈ o.feesPaid ∨ chargesIn asset f = true := by
  cases hPositive : f.fee.amount.isPositive with
  | false =>
      have hFree := (hExecutes.free hPositive).2
      simp [chargesIn, hPositive, hFree]
  | true =>
      rcases hExecutes.charged hPositive with
        ⟨_, sum, _, hPaid⟩
      rw [hPaid, Std.ExtTreeMap.mem_insert]
      simp [chargesIn, hPositive, or_comm]

/- A fill that is executed is added to the accounts. -/
theorem execute
    (h : o.Accounts fills)
    (hExecutes : o.Executes f p) :
    p.Accounts (fills ++ [f]) where
  names_nodup := by
    have hUnused := hExecutes.accepts.unused
    rw [h.trades_iff] at hUnused
    rw [List.map_append, List.map_singleton,
      List.nodup_append]
    refine ⟨h.names_nodup, List.nodup_singleton _, ?_⟩
    intro id hMem id' hMem' hSame
    rw [List.mem_singleton.mp hMem'] at hSame
    exact hUnused (hSame ▸ hMem)
  trades_iff := by
    intro id
    rw [hExecutes.trades_eq, Std.ExtTreeSet.mem_insert,
      Std.compare_eq_iff_eq, h.trades_iff, List.map_append,
      List.mem_append, List.map_singleton, List.mem_singleton,
      or_comm, eq_comm]
  base_eq := by
    rw [List.map_append, List.map_singleton,
      total_append h.base_eq]
    exact hExecutes.base_eq
  quote_eq := by
    rw [List.map_append, List.map_singleton,
      total_append h.quote_eq]
    exact hExecutes.quote_eq
  entry_iff := by
    intro asset
    rw [mem_feesPaid_execute hExecutes, h.entry_iff,
      feesIn_append]
    cases chargesIn asset f <;> simp
  fee_eq := by
    intro asset
    have hFee := feePaid_execute hExecutes asset
    rw [feesIn_append]
    cases hCharge : chargesIn asset f with
    | false =>
        rw [hCharge, if_neg (by decide)] at hFee
        rw [if_neg (by decide), List.append_nil, h.fee_eq, hFee]
    | true =>
        rw [hCharge, if_pos rfl] at hFee
        rw [if_pos rfl, total_append (h.fee_eq asset), hFee]
  feeAsset_eq := by
    rw [List.find?_append, Option.map_or, ← h.feeAsset_eq]
    cases hPositive : f.fee.amount.isPositive with
    | false =>
        rw [(hExecutes.free hPositive).1]
        simp [hPositive]
    | true =>
        rw [(hExecutes.charged hPositive).1]
        simp [hPositive]
  lastPrice_eq := by
    simp [hExecutes.lastPrice_eq]
  lastAmount_eq := by
    simp [hExecutes.lastAmount_eq]
  lastFee_eq := by
    simp [hExecutes.lastFee_eq]

/-
  The fees are reported in one asset, in which there is a
  total as soon as there is such an asset.
-/
theorem totalFee_eq
    (h : o.Accounts fills)
    {asset : String}
    (hAsset : o.feeAsset = some asset) :
    o.feesPaid[asset]? = some o.totalFee := by
  rw [h.feeAsset_eq, Option.map_eq_some_iff] at hAsset
  rcases hAsset with ⟨f, hFirst, hOwn⟩
  have hMem := List.mem_of_find?_eq_some hFirst
  have hPositive := List.find?_some hFirst
  have hEntry : asset ∈ o.feesPaid := by
    rw [h.entry_iff, feesIn_ne_nil_iff]
    exact ⟨f, hMem, hOwn, hPositive⟩
  have hReported : o.feeAsset = some asset := by
    rw [h.feeAsset_eq, hFirst, Option.map_some, hOwn]
  unfold totalFee feePaid
  simp only [hReported]
  rw [Std.ExtTreeMap.getElem?_eq_some_getElem hEntry]
  rfl

/- The entry of an asset is the sum of the fees in it. -/
theorem entry_eq
    (h : o.Accounts fills)
    {asset : String}
    {paid : Decimal}
    (hPaid : o.feesPaid[asset]? = some paid) :
    total (feesIn asset fills) = some paid := by
  rw [h.fee_eq]
  unfold feePaid
  rw [hPaid]
  rfl

end Accounts

------------------------------------------------------------
-- Sequences
------------------------------------------------------------

/- The last sequence of a record is the highest of some. -/
structure Hears (o : Order) (fills : List Fill) : Prop where
  le :
    ∀ f ∈ fills, ∃ last,
      o.tradeSequence = some last ∧ f.sequence ≤ last
  mem :
    ∀ last, o.tradeSequence = some last →
      ∃ f ∈ fills, f.sequence = last

namespace Hears

variable {fills : List Fill}

/- A fill is fresh if it is newer than those heard. -/
theorem fresh_iff
    (h : o.Hears fills)
    (f : Fill) :
    o.staleAt .trade f.sequence = none ↔
      ∀ g ∈ fills, g.sequence < f.sequence := by
  unfold staleAt sequenceOf
  constructor
  · intro hFresh g hMem
    rcases h.le g hMem with ⟨last, hLast, hLe⟩
    rw [hLast, Option.filter_some] at hFresh
    have hNewer : ¬ f.sequence ≤ last := by
      intro hStale
      simp [hStale] at hFresh
    omega
  · intro hNewer
    cases hLast : o.tradeSequence with
    | none => rfl
    | some last =>
        rcases h.mem last hLast with ⟨g, hMem, hEq⟩
        have hLess := hNewer g hMem
        have hFresh : last < f.sequence := by omega
        simp [hFresh]

theorem same
    (h : o.Hears fills)
    (hSame : p.tradeSequence = o.tradeSequence) :
    p.Hears fills where
  le := hSame ▸ h.le
  mem := hSame ▸ h.mem

/- A fresh fill is heard as the latest. -/
theorem hear
    (h : o.Hears fills)
    (hFresh : o.staleAt .trade f.sequence = none)
    (hTaken : p.tradeSequence = some f.sequence) :
    p.Hears (fills ++ [f]) where
  le := by
    intro g hMem
    refine ⟨f.sequence, hTaken, ?_⟩
    rcases List.mem_append.mp hMem with hOld | hNew
    · have hLess := (h.fresh_iff f).mp hFresh g hOld
      omega
    · rw [List.mem_singleton.mp hNew]
  mem := by
    intro last hLast
    rw [hTaken] at hLast
    exact ⟨f, by simp, Option.some.inj hLast⟩

end Hears

------------------------------------------------------------
-- Updates to a new record
------------------------------------------------------------

/- The fills of a log are in the accounts of a record. -/
structure Keeps (o : Order) (log : Outcomes) : Prop where
  accounts : o.Accounts (executed log)
  hears : o.Hears (heardFills log)

namespace Keeps

variable {log : Outcomes}

theorem ofRequest
    (r : OrderRequest) :
    (Order.ofRequest r).Keeps [] where
  accounts := Accounts.ofRequest r
  hears :=
    { le := by
        intro f hMem
        contradiction
      mem := by
        intro last hLast
        contradiction }

theorem status
    (h : o.Keeps log)
    {u : StatusUpdate}
    {outcome : Outcome}
    (hStep : o.StatusStep u p outcome) :
    p.Keeps (log ++ [(.status u, .ok outcome)]) where
  accounts := by
    rw [executed_append]
    simpa [executedFill?] using
      h.accounts.same hStep.sameAccounts
  hears := by
    rw [heardFills_append]
    simpa [heardFill?] using
      h.hears.same hStep.tradeSequence_eq

/- A fresh fill is heard, whatever becomes of it. -/
theorem hears_fresh
    (h : o.Keeps log)
    {outcome : Outcome}
    (hHeard : heardFill? (.fill f, .ok outcome) = some f)
    (hFresh : o.staleAt .trade f.sequence = none)
    (hTaken : p.tradeSequence = some f.sequence) :
    p.Hears (heardFills (log ++ [(.fill f, .ok outcome)])) := by
  rw [heardFills_append, hHeard]
  exact h.hears.hear hFresh hTaken

theorem fill
    (h : o.Keeps log)
    {outcome : Outcome}
    (hStep : o.FillStep f p (.ok outcome))
    (hId : f.orderId = o.id) :
    p.Keeps (log ++ [(.fill f, .ok outcome)]) where
  accounts := by
    rw [executed_append]
    by_cases hApplied : outcome = .applied
    · subst hApplied
      exact h.accounts.execute hStep.executes
    · have hNone :
          executedFill? (.fill f, .ok outcome) = none := by
        cases outcome with
        | applied => contradiction
        | _ => rfl
      rw [hNone, Option.toList_none, List.append_nil]
      exact h.accounts.same (hStep.sameAccounts hApplied)
  hears := by
    cases hStep with
    | mismatched hOther => contradiction
    | stale last =>
        rw [heardFills_append]
        simpa [heardFill?] using h.hears
    | empty _ hFresh => exact h.hears_fresh rfl hFresh rfl
    | duplicate _ hFresh => exact h.hears_fresh rfl hFresh rfl
    | free base quote hAccepts =>
        apply h.hears_fresh rfl hAccepts.fresh
        rw [conclude_eq]
        rfl
    | charged base quote sum hAccepts =>
        apply h.hears_fresh rfl hAccepts.fresh
        rw [conclude_eq]
        rfl

/- An update that fits is added to the log. -/
theorem apply
    (h : o.Keeps log)
    {u : Update}
    (hId : u.orderId = o.id)
    (hFits : ∀ why, (o.apply u).2 ≠ .error why) :
    (o.apply u).1.Keeps (log ++ [(u, (o.apply u).2)]) := by
  cases u with
  | status u => exact h.status (o.applyStatus_step u)
  | fill f =>
      cases hOutcome : (o.apply (.fill f)).2 with
      | error why => exact absurd hOutcome (hFits why)
      | ok outcome =>
          have hStep := o.applyFill_step f
          have hEnd : (o.applyFill f).2 = .ok outcome := hOutcome
          rw [hEnd] at hStep
          exact h.fill hStep hId

/- What becomes of all updates is added to the log. -/
theorem applyAll
    (h : o.Keeps log)
    {us : List Update}
    (hId : ∀ u ∈ us, u.orderId = o.id)
    (hFits : ∀ e ∈ o.outcomes us, ∀ why, e.2 ≠ .error why) :
    (o.applyAll us).Keeps (log ++ o.outcomes us) := by
  induction us generalizing o log with
  | nil => simpa [Order.outcomes, Order.applyAll] using h
  | cons u us ih =>
      have hFirst :=
        h.apply (hId u (by simp)) (by
          intro why
          exact hFits (u, (o.apply u).2)
            (by simp [Order.outcomes]) why)
      have hRest :=
        ih hFirst
          (fun v hMem => by
            rw [(o.apply_sameTerms u).id_eq]
            exact hId v (by simp [hMem]))
          (fun e hMem => hFits e (by simp [Order.outcomes, hMem]))
      simpa [Order.outcomes, Order.applyAll] using hRest

/- What decides whether a fill is accepted. -/
theorem accepts_iff
    (h : o.Keeps log)
    (hId : f.orderId = o.id) :
    o.Accepts f ↔
      (∀ g ∈ heardFills log, g.sequence < f.sequence) ∧
        .zero < f.base ∧
        f.tradeId ∉ (executed log).map Fill.tradeId := by
  constructor
  · intro hAccepts
    refine ⟨?_, ?_, ?_⟩
    · exact (h.hears.fresh_iff f).mp hAccepts.fresh
    · simpa [Decimal.isPositive] using hAccepts.positive
    · rw [← h.accounts.trades_iff]
      exact hAccepts.unused
  · rintro ⟨hNewer, hPositive, hUnused⟩
    exact
      { addressed := hId
        fresh := (h.hears.fresh_iff f).mpr hNewer
        positive := by simpa [Decimal.isPositive] using hPositive
        unused := by rwa [h.accounts.trades_iff] }

end Keeps

/- A fill that fits is applied exactly if it is accepted. -/
theorem FillStep.applied_iff
    {outcome : Except Overflow Outcome}
    (hStep : o.FillStep f p outcome)
    (hFits : ∀ why, outcome ≠ .error why) :
    outcome = .ok .applied ↔ o.Accepts f := by
  cases hStep with
  | mismatched hOther =>
      simp only [Except.ok.injEq, reduceCtorEq, false_iff]
      intro hAccepts
      exact hOther hAccepts.addressed
  | stale last hId hStale =>
      simp only [Except.ok.injEq, reduceCtorEq, false_iff]
      intro hAccepts
      rw [hAccepts.fresh] at hStale
      contradiction
  | empty hId hFresh hEmpty =>
      simp only [Except.ok.injEq, reduceCtorEq, false_iff]
      intro hAccepts
      rw [hAccepts.positive] at hEmpty
      contradiction
  | duplicate hId hFresh hPositive hUsed =>
      simp only [Except.ok.injEq, reduceCtorEq, false_iff]
      intro hAccepts
      exact hAccepts.unused hUsed
  | free base quote hAccepts => simp [hAccepts]
  | charged base quote sum hAccepts => simp [hAccepts]
  | brokenBase => exact absurd rfl (hFits .addition)
  | brokenQuote => exact absurd rfl (hFits .addition)
  | brokenFee => exact absurd rfl (hFits .addition)

/-
  After any updates addressed to a new record, none of which
  breaks, the record is what the executed fills make of it.
  A fill is executed exactly if it is newer than every fill
  before it that was not stale, has a base amount above zero,
  and has a name of its own among those executed before.
-/
theorem accounts_ofRequest
    (r : OrderRequest)
    (us : List Update)
    (hAddressed : ∀ u ∈ us, u.orderId = r.id)
    (hFits :
      ∀ e ∈ (ofRequest r).outcomes us,
        ∀ why, e.2 ≠ .error why) :
    let o := (ofRequest r).applyAll us
    let fills := executed ((ofRequest r).outcomes us)
    (∀ before f after, us = before ++ .fill f :: after →
      let log := (ofRequest r).outcomes before
      (((ofRequest r).applyAll before).apply (.fill f)).2 =
          .ok .applied ↔
        (∀ g ∈ heardFills log, g.sequence < f.sequence) ∧
          .zero < f.base ∧
          f.tradeId ∉ (executed log).map Fill.tradeId) ∧
    (fills.map Fill.tradeId).Nodup ∧
    (∀ id, id ∈ o.trades ↔ id ∈ fills.map Fill.tradeId) ∧
    total (fills.map Fill.base) = some o.executedBase ∧
    total (fills.map quoteOf) = some o.executedQuote ∧
    (∀ asset : String,
      asset ∈ o.feesPaid ↔
        ∃ f ∈ fills, f.fee.asset = asset ∧
          .zero < f.fee.amount) ∧
    (∀ (asset : String) (paid : Decimal),
      o.feesPaid[asset]? = some paid →
        total (feesIn asset fills) = some paid) ∧
    (o.feeAsset =
      (fills.find? fun f => f.fee.amount.isPositive).map
        fun f => f.fee.asset) ∧
    (∀ asset, o.feeAsset = some asset →
      o.feesPaid[asset]? = some o.totalFee) ∧
    (o.feeAsset = none → o.totalFee = .zero) ∧
    o.lastPrice = (fills.getLast?.map Fill.price).getD .zero ∧
    o.lastAmount = (fills.getLast?.map Fill.base).getD .zero ∧
    o.lastFee = fills.getLast?.map Fill.fee := by
  intro o fills
  have hKeeps : o.Keeps ((ofRequest r).outcomes us) := by
    have hAll :=
      (Keeps.ofRequest r).applyAll hAddressed hFits
    simpa using hAll
  have hAccounts := hKeeps.accounts
  refine
    ⟨?_, hAccounts.names_nodup, hAccounts.trades_iff,
      hAccounts.base_eq, hAccounts.quote_eq, ?_,
      fun _ _ hPaid => hAccounts.entry_eq hPaid,
      hAccounts.feeAsset_eq,
      fun _ hAsset => hAccounts.totalFee_eq hAsset, ?_,
      hAccounts.lastPrice_eq, hAccounts.lastAmount_eq,
      hAccounts.lastFee_eq⟩
  · rintro before f after rfl log
    have hBefore :
        ((ofRequest r).applyAll before).Keeps log := by
      have hOwn : ∀ u ∈ before, u.orderId = r.id := by
        intro u hMem
        exact hAddressed u (by simp [hMem])
      have hPart :=
        (Keeps.ofRequest r).applyAll hOwn
          (fun e hMem => hFits e (by
            rw [outcomes_append]
            exact List.mem_append_left _ hMem))
      simpa using hPart
    have hId :
        f.orderId = ((ofRequest r).applyAll before).id := by
      rw [id_applyAll]
      exact hAddressed (.fill f) (by simp)
    have hFit :
        ∀ why,
          (((ofRequest r).applyAll before).apply
            (.fill f)).2 ≠ .error why :=
      hFits _ (by
        rw [outcomes_append]
        exact List.mem_append_right _ (List.mem_cons_self))
    rw [← hBefore.accepts_iff hId]
    exact FillStep.applied_iff (applyFill_step _ f) hFit
  · intro asset
    rw [hAccounts.entry_iff, feesIn_ne_nil_iff]
    simp [Decimal.isPositive, fills]
  · intro hNone
    unfold totalFee
    rw [hNone]

/- A request for an order that any fill completes. -/
def sampleRequest : OrderRequest :=
  { id := "a", pair := "A-B", kind := .limit, side := .buy
    amount := .zero, price := .zero, venueId := none
    createdAt := 0 }

/- A fill of one unit, charged one unit. -/
def sampleFill : Fill :=
  let one := (Decimal.ofInt? 1).getD .zero
  { tradeId := "t", orderId := "a", venueId := none
    price := one, base := one, quote := one, fee := ⟨"B", one⟩
    sequence := 0, time := 0 }

theorem outcomes_sample :
    (ofRequest sampleRequest).outcomes
        [.fill sampleFill, .fill sampleFill] =
      [(.fill sampleFill, .ok .applied),
        (.fill sampleFill, .ok (.stale 0))] := by
  decide +kernel

/- A fill that comes twice is counted once. -/
theorem accounts_ofRequest_twice :
    let o :=
      (ofRequest sampleRequest).applyAll
        [.fill sampleFill, .fill sampleFill]
    total [sampleFill.base] = some o.executedBase ∧
      o.feeAsset = some "B" := by
  have hAddressed :
      ∀ u ∈ [Update.fill sampleFill, .fill sampleFill],
        u.orderId = sampleRequest.id := by
    decide
  have hAccounts :=
    accounts_ofRequest sampleRequest _ hAddressed (by
      rw [outcomes_sample]
      simp)
  rw [outcomes_sample] at hAccounts
  exact ⟨hAccounts.2.2.2.1, hAccounts.2.2.2.2.2.2.2.1⟩

end Order

end OrderWatch
