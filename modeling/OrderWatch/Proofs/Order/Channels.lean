import OrderWatch.Proofs.Order.Accounts
import OrderWatch.Proofs.Order.Seen

/-
  The channels of a record are apart from each other.

  What a record keeps of its fills is its ledger.  A fill is
  answered from the ledger alone, and a status update does
  not write in it, so status updates may be left out, put in
  or moved, and each fill is answered as before.  They may
  well change the status of the order on the way, and when
  it is done.  In the same way, which updates of a channel
  are stale is decided on that channel.

  Main declarations:
    * `Order.Ledger`, `Order.ledger`
    * `Order.applyFill_shown`
    * `Order.place`, `Order.place_apply`
    * `Order.Watches`, `Order.Watches.run`
    * `Order.channels_apart`
-/

namespace OrderWatch

namespace Order

variable {o p : Order}

------------------------------------------------------------
-- The ledger
------------------------------------------------------------

/- What a record keeps of the fills that it has been given. -/
structure Ledger where
  id : OrderId
  sequence : Option Nat
  trades : Std.ExtTreeSet TradeId compare
  executedBase : Decimal
  executedQuote : Decimal
  feeAsset : Option String
  feesPaid : Std.ExtTreeMap String Decimal compare
  lastPrice : Decimal
  lastAmount : Decimal
  lastFee : Option Fee

def ledger (o : Order) : Ledger :=
  { id := o.id
    sequence := o.tradeSequence
    trades := o.trades
    executedBase := o.executedBase
    executedQuote := o.executedQuote
    feeAsset := o.feeAsset
    feesPaid := o.feesPaid
    lastPrice := o.lastPrice
    lastAmount := o.lastAmount
    lastFee := o.lastFee }

/- A record with an answer, of which the ledger is shown. -/
def shown {α : Type} (r : Order × α) : Ledger × α :=
  (r.1.ledger, r.2)

theorem shown_eq
    {α : Type}
    (h : o.ledger = p.ledger)
    (a : α) :
    shown (o, a) = shown (p, a) :=
  Prod.ext h rfl

/- A status update does not write in the ledger. -/
theorem StatusStep.ledger_eq
    {u : StatusUpdate}
    {outcome : Outcome}
    (hStep : o.StatusStep u p outcome) :
    p.ledger = o.ledger := by
  cases hStep <;> rfl

------------------------------------------------------------
-- Parts of a fill
------------------------------------------------------------

/-
  Each part of a fill reads nothing but the ledger, and from
  equal ledgers it makes equal ones.
-/

theorem addBase_shown
    (h : o.ledger = p.ledger)
    (amount : Decimal) :
    shown (o.addBase amount) = shown (p.addBase amount) := by
  have hBase : o.executedBase = p.executedBase :=
    congrArg Ledger.executedBase h
  unfold addBase
  rw [hBase]
  cases Decimal.add p.executedBase amount with
  | none => exact shown_eq h false
  | some total =>
      have hWritten :
          { o with executedBase := total }.ledger =
            { p with executedBase := total }.ledger :=
        congrArg (fun l => { l with executedBase := total }) h
      exact shown_eq hWritten true

theorem addQuote_shown
    (h : o.ledger = p.ledger)
    (amount : Decimal) :
    shown (o.addQuote amount) = shown (p.addQuote amount) := by
  have hQuote : o.executedQuote = p.executedQuote :=
    congrArg Ledger.executedQuote h
  unfold addQuote
  simp only
  rw [hQuote]
  cases Decimal.add p.executedQuote
      (if amount < .zero then .zero else amount) with
  | none => exact shown_eq h false
  | some total =>
      have hWritten :
          { o with executedQuote := total }.ledger =
            { p with executedQuote := total }.ledger :=
        congrArg (fun l => { l with executedQuote := total }) h
      exact shown_eq hWritten true

/- A fee is added to what has been charged in its asset. -/
def payFee (o : Order) (fee : Fee) : Step :=
  match Decimal.add (o.feePaid fee.asset) fee.amount with
  | some total =>
      ({ o with
          feesPaid := o.feesPaid.insert fee.asset total },
        true)
  | none => (o, false)

theorem addFee_eq
    (o : Order)
    (fee : Fee) :
    o.addFee fee =
      if fee.amount.isPositive then
        { o with
          feeAsset :=
            o.feeAsset.or (some fee.asset) }.payFee fee
      else
        (o, true) :=
  rfl

theorem payFee_shown
    (h : o.ledger = p.ledger)
    (fee : Fee) :
    shown (o.payFee fee) = shown (p.payFee fee) := by
  have hFees : o.feesPaid = p.feesPaid :=
    congrArg Ledger.feesPaid h
  have hPaid : o.feePaid fee.asset = p.feePaid fee.asset := by
    unfold feePaid
    rw [hFees]
  unfold payFee
  rw [hPaid]
  cases Decimal.add (p.feePaid fee.asset) fee.amount with
  | none => exact shown_eq h false
  | some total =>
      have hWritten :
          { o with
              feesPaid :=
                o.feesPaid.insert fee.asset total }.ledger =
            { p with
              feesPaid :=
                p.feesPaid.insert fee.asset total }.ledger :=
        congrArg
          (fun l =>
            { l with
              feesPaid := l.feesPaid.insert fee.asset total }) h
      exact shown_eq hWritten true

theorem addFee_shown
    (h : o.ledger = p.ledger)
    (fee : Fee) :
    shown (o.addFee fee) = shown (p.addFee fee) := by
  have hNamed :
      { o with
          feeAsset := o.feeAsset.or (some fee.asset) }.ledger =
        { p with
          feeAsset := p.feeAsset.or (some fee.asset) }.ledger :=
    congrArg
      (fun l =>
        { l with feeAsset := l.feeAsset.or (some fee.asset) }) h
  rw [addFee_eq, addFee_eq]
  split
  · exact payFee_shown hNamed fee
  · exact shown_eq h true

theorem ledger_conclude
    (h : o.ledger = p.ledger)
    (f : Fill) :
    (o.conclude f).ledger = (p.conclude f).ledger := by
  rw [conclude_eq, conclude_eq]
  exact
    congrArg
      (fun l =>
        { l with
          lastPrice := f.price
          lastAmount := f.base
          lastFee := some f.fee })
      h

/- What follows a step, if its sum has fitted. -/
def Step.followedBy
    (step : Step)
    (next : Order → Order × Except Overflow Outcome) :
    Order × Except Overflow Outcome :=
  match step with
  | (o, false) => (o, .error .addition)
  | (o, true) => next o

theorem Step.followedBy_shown
    {s t : Step}
    (h : shown s = shown t)
    {next : Order → Order × Except Overflow Outcome}
    (hNext :
      ∀ {o p : Order}, o.ledger = p.ledger →
        shown (next o) = shown (next p)) :
    shown (s.followedBy next) = shown (t.followedBy next) := by
  rcases s with ⟨o, fits⟩
  rcases t with ⟨p, fits'⟩
  rcases Prod.mk.inj h with ⟨hLedger, hFits⟩
  simp only at hLedger hFits
  subst hFits
  cases fits with
  | false => exact shown_eq hLedger _
  | true => exact hNext hLedger

/- The steps of an accepted fill. -/
theorem execute_eq
    (o : Order)
    (f : Fill) :
    o.execute f =
      Step.followedBy
        (addBase
          ({ o with trades := o.trades.insert f.tradeId }.noted
            f.time f.venueId) f.base)
        fun o =>
          Step.followedBy (o.addQuote f.quote) fun o =>
            Step.followedBy (o.addFee f.fee) fun o =>
              (o.conclude f, .ok .applied) :=
  rfl

theorem execute_shown
    (h : o.ledger = p.ledger)
    (f : Fill) :
    shown (o.execute f) = shown (p.execute f) := by
  have hNamed :=
    congrArg
      (fun l => { l with trades := l.trades.insert f.tradeId }) h
  rw [execute_eq, execute_eq]
  apply Step.followedBy_shown (addBase_shown hNamed f.base)
  intro o p hBase
  apply Step.followedBy_shown (addQuote_shown hBase f.quote)
  intro o p hQuote
  apply Step.followedBy_shown (addFee_shown hQuote f.fee)
  intro o p hFee
  exact shown_eq (ledger_conclude hFee f) _

/- A fill that is not stale is refused or executed. -/
def judge
    (o : Order)
    (f : Fill) : Order × Except Overflow Outcome :=
  if !f.base.isPositive then
    (o, .ok (.rejected .emptyFill))
  else if f.tradeId ∈ o.trades then
    (o, .ok (.rejected (.duplicateTrade f.tradeId)))
  else
    o.execute f

theorem applyFill_eq
    (o : Order)
    (f : Fill) :
    o.applyFill f =
      if f.orderId ≠ o.id then
        (o, .ok (.rejected .mismatchedOrder))
      else
        match o.staleAt .trade f.sequence with
        | some last => (o, .ok (.stale last))
        | none =>
            { o with
              tradeSequence := some f.sequence }.judge f :=
  rfl

theorem judge_shown
    (h : o.ledger = p.ledger)
    (f : Fill) :
    shown (o.judge f) = shown (p.judge f) := by
  have hTrades : o.trades = p.trades := congrArg Ledger.trades h
  unfold judge
  rw [hTrades]
  split
  · exact shown_eq h _
  · split
    · exact shown_eq h _
    · exact execute_shown h f

/- Records with equal ledgers answer a fill in one way. -/
theorem applyFill_shown
    (h : o.ledger = p.ledger)
    (f : Fill) :
    shown (o.applyFill f) = shown (p.applyFill f) := by
  have hId : o.id = p.id := congrArg Ledger.id h
  have hStale :
      o.staleAt .trade f.sequence =
        p.staleAt .trade f.sequence :=
    congrArg
      (fun l =>
        l.sequence.filter fun last => f.sequence ≤ last) h
  have hHeard :
      { o with tradeSequence := some f.sequence }.ledger =
        { p with tradeSequence := some f.sequence }.ledger :=
    congrArg (fun l => { l with sequence := some f.sequence }) h
  rw [applyFill_eq, applyFill_eq, hStale]
  by_cases hOther : f.orderId ≠ p.id
  · rw [if_pos hOther, if_pos (hId ▸ hOther)]
    exact shown_eq h _
  · rw [if_neg hOther, if_neg (hId ▸ hOther)]
    cases p.staleAt .trade f.sequence with
    | some last => exact shown_eq h _
    | none => exact judge_shown hHeard f

------------------------------------------------------------
-- Stale status updates
------------------------------------------------------------

/- How far a record has come with status updates. -/
def place (o : Order) : OrderId × Option Nat :=
  (o.id, o.statusSequence)

/- The last sequence, if an update has been stale. -/
def staleness : Except Overflow Outcome → Option Nat
  | .ok (.stale last) => some last
  | _ => none

theorem StatusStep.staleness_eq
    {u : StatusUpdate}
    {outcome : Outcome}
    (hStep : o.StatusStep u p outcome) :
    staleness (.ok outcome) =
      if u.orderId = o.id then
        o.staleAt .status u.sequence
      else
        none := by
  cases hStep with
  | mismatched hOther => exact (if_neg hOther).symm
  | stale last hId hStale =>
      rw [if_pos hId, hStale]
      rfl
  | unchanged hId hFresh =>
      rw [if_pos hId, hFresh]
      rfl
  | moved hId hFresh =>
      rw [if_pos hId, hFresh]
      rfl
  | refused hId hFresh =>
      rw [if_pos hId, hFresh]
      rfl

/- A fill does not number status updates. -/
theorem FillStep.place_eq
    {f : Fill}
    {outcome : Except Overflow Outcome}
    (hStep : o.FillStep f p outcome) :
    p.place = o.place := by
  have hSequence := hStep.sequenceOf_eq .status
  rw [if_neg (by simp)] at hSequence
  exact Prod.ext hStep.sameTerms.id_eq hSequence

/-
  The place decides whether a status update is stale, and is
  then the same again.
-/
theorem applyStatus_place
    (h : o.place = p.place)
    (u : StatusUpdate) :
    (o.applyStatus u).1.place = (p.applyStatus u).1.place ∧
      staleness (.ok (o.applyStatus u).2) =
        staleness (.ok (p.applyStatus u).2) := by
  have hStep := o.applyStatus_step u
  have hStep' := p.applyStatus_step u
  have hId : o.id = p.id := congrArg Prod.fst h
  have hSequence : o.sequenceOf .status = p.sequenceOf .status :=
    congrArg Prod.snd h
  have hStale :
      o.staleAt .status u.sequence =
        p.staleAt .status u.sequence := by
    unfold staleAt
    rw [hSequence]
  have hFresh :
      o.Fresh (.status u) ↔ p.Fresh (.status u) := by
    unfold Fresh
    rw [hId]
    exact and_congr_right fun _ => Eq.congr_left hStale
  constructor
  · apply Prod.ext
    · exact
        hStep.sameTerms.id_eq.trans
          (hId.trans hStep'.sameTerms.id_eq.symm)
    · have hTaken := hStep.sequenceOf_eq .status
      rw [if_congr (and_congr_right fun _ => hFresh) rfl
        hSequence] at hTaken
      exact hTaken.trans (hStep'.sequenceOf_eq .status).symm
  · rw [hStep.staleness_eq, hStep'.staleness_eq, hId, hStale]

------------------------------------------------------------
-- One channel of a run
------------------------------------------------------------

/-
  Something of a record that only the updates of a channel
  change, and that decides what is answered to them.
-/
structure Watches
    {α β : Type}
    (channel : Channel)
    (view : Order → α)
    (answer : Except Overflow Outcome → β) : Prop where
  other :
    ∀ (o : Order) (u : Update), u.channel ≠ channel →
      view (o.apply u).1 = view o
  own :
    ∀ (o p : Order) (u : Update), u.channel = channel →
      view o = view p →
        view (o.apply u).1 = view (p.apply u).1 ∧
          answer (o.apply u).2 = answer (p.apply u).2

theorem watches_trade :
    Watches .trade ledger fun outcome => outcome where
  other := by
    intro o u hOther
    cases u with
    | status u => exact (o.applyStatus_step u).ledger_eq
    | fill f => exact absurd rfl hOther
  own := by
    intro o p u hOwn hLedger
    cases u with
    | status u => contradiction
    | fill f => exact Prod.mk.inj (applyFill_shown hLedger f)

theorem watches_status : Watches .status place staleness where
  other := by
    intro o u hOther
    cases u with
    | status u => exact absurd rfl hOther
    | fill f => exact (o.applyFill_step f).place_eq
  own := by
    intro o p u hOwn hPlace
    cases u with
    | status u => exact applyStatus_place hPlace u
    | fill f => contradiction

/- The part of a log that is about a channel. -/
def onChannel (channel : Channel) (log : Outcomes) : Outcomes :=
  log.filter (·.1.channel = channel)

/- What is answered on a channel. -/
def answersOn
    {β : Type}
    (channel : Channel)
    (answer : Except Overflow Outcome → β)
    (log : Outcomes) : List (Update × β) :=
  (onChannel channel log).map fun e => (e.1, answer e.2)

namespace Watches

variable {α β : Type} {channel : Channel}
variable {view : Order → α}
variable {answer : Except Overflow Outcome → β}

/- The updates of the other channel may be left out. -/
theorem run_filter
    (h : Watches channel view answer)
    (hView : view o = view p)
    (us : List Update) :
    let own := us.filter (·.channel = channel)
    answersOn channel answer (o.outcomes us) =
        answersOn channel answer (p.outcomes own) ∧
      view (o.applyAll us) = view (p.applyAll own) := by
  induction us generalizing o p with
  | nil => exact ⟨rfl, hView⟩
  | cons u us ih =>
      by_cases hOwn : u.channel = channel
      · rcases h.own o p u hOwn hView with ⟨hNext, hAnswer⟩
        rcases ih hNext with ⟨hRest, hLast⟩
        rw [List.filter_cons_of_pos (by simpa using hOwn)]
        refine ⟨?_, hLast⟩
        unfold answersOn onChannel at hRest ⊢
        simp only [outcomes, hOwn, decide_true,
          List.filter_cons_of_pos, List.map_cons, hAnswer,
          hRest]
      · have hNext := (h.other o u hOwn).trans hView
        rcases ih hNext with ⟨hRest, hLast⟩
        rw [List.filter_cons_of_neg (by simpa using hOwn)]
        refine ⟨?_, hLast⟩
        unfold answersOn onChannel at hRest ⊢
        rw [← hRest]
        simp only [outcomes]
        rw [List.filter_cons_of_neg (by simpa using hOwn)]

/- Runs with the same updates of a channel agree on it. -/
theorem run
    (h : Watches channel view answer)
    (o : Order)
    {us vs : List Update}
    (hSame :
      us.filter (·.channel = channel) =
        vs.filter (·.channel = channel)) :
    answersOn channel answer (o.outcomes us) =
        answersOn channel answer (o.outcomes vs) ∧
      view (o.applyAll us) = view (o.applyAll vs) := by
  have hFirst := h.run_filter (o := o) rfl us
  have hSecond := h.run_filter (o := o) rfl vs
  rw [hSame] at hFirst
  exact
    ⟨hFirst.1.trans hSecond.1.symm,
      hFirst.2.trans hSecond.2.symm⟩

end Watches

/-
  However the updates of the other channel come in between:
  if two runs have the same fills, then each fill has the
  same outcome in both and the ledgers are equal at the end;
  and if they have the same status updates, then the same of
  these are stale, after the same sequences, and the last
  sequences are equal.
-/
theorem channels_apart
    (o : Order)
    (us vs : List Update) :
    (us.filter (·.channel = .trade) =
        vs.filter (·.channel = .trade) →
      onChannel .trade (o.outcomes us) =
          onChannel .trade (o.outcomes vs) ∧
        (o.applyAll us).ledger = (o.applyAll vs).ledger) ∧
    (us.filter (·.channel = .status) =
        vs.filter (·.channel = .status) →
      answersOn .status staleness (o.outcomes us) =
          answersOn .status staleness (o.outcomes vs) ∧
        (o.applyAll us).statusSequence =
          (o.applyAll vs).statusSequence) := by
  constructor
  · intro hFills
    rcases watches_trade.run o hFills with ⟨hAnswers, hLedger⟩
    unfold answersOn at hAnswers
    rw [List.map_id', List.map_id'] at hAnswers
    exact ⟨hAnswers, hLedger⟩
  · intro hStatuses
    rcases watches_status.run o hStatuses with ⟨hStale, hPlace⟩
    exact ⟨hStale, congrArg Prod.snd hPlace⟩

/-
  A fill that completes the order, before or after the order
  is cancelled: the order ends otherwise, with one ledger.
-/
theorem channels_apart_cancelled :
    let o := ofRequest sampleRequest
    let cancel :=
      Update.status
        { orderId := "a", venueId := none, status := .cancelled
          sequence := 0, time := 0 }
    let p := o.applyAll [.fill sampleFill, cancel]
    let q := o.applyAll [cancel, .fill sampleFill]
    p.ledger = q.ledger ∧
      p.statusSequence = q.statusSequence ∧
      p.status = .filled ∧ q.status = .cancelled := by
  intro o cancel p q
  have hApart :=
    channels_apart o [.fill sampleFill, cancel]
      [cancel, .fill sampleFill]
  exact
    ⟨(hApart.1 rfl).2, (hApart.2 rfl).2, by decide +kernel,
      by decide +kernel⟩

end Order

end OrderWatch
