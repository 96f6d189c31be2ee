import OrderWatch.Proofs.Order.Accounts
import OrderWatch.Proofs.Order.Ends

/-
  What a completion says of a record.

  A completion gives the totals of a record and its fee as
  they are when it is told.  Under `replay` an update of a
  filled record that is applied tells a new one, and an update
  that is refused changes none of the totals; so the totals of
  a filled record cannot change unless they are told.

  Main declarations:
    * `completionsIn`
    * `Completion.Shows`
    * `Order.completionsIn_eventsSince`
    * `Order.Completes`, `Order.completes_respond`
-/

namespace OrderWatch

------------------------------------------------------------
-- Completions among events
------------------------------------------------------------

/- What an event says of an order that is filled. -/
def Event.completion? : Event → Option Completion
  | .completed _ c => some c
  | .created _ _ | .filled _ | .cancelled _ | .failed _ => none

/- The completions that some events report. -/
def completionsIn (events : List Event) : List Completion :=
  events.filterMap Event.completion?

theorem completionsIn_append
    (xs ys : List Event) :
    completionsIn (xs ++ ys) =
      completionsIn xs ++ completionsIn ys :=
  List.filterMap_append

/- A completion gives the totals and the fee of a record. -/
structure Completion.Shows
    (c : Completion)
    (o : Order) : Prop where
  base_eq : c.base = o.executedBase
  quote_eq : c.quote = o.executedQuote
  fee_eq : c.fee = o.totalFee
  feeAsset_eq : c.feeAsset = o.feeAsset.getD o.quoteAsset

namespace Order

variable {o p : Order} {u : Update} {time : Time.Moment}

/- A record with the same accounts is shown as well. -/
theorem SameAccounts.shows
    {c : Completion}
    (hSame : o.SameAccounts p)
    (hTerms : o.SameTerms p)
    (hShows : c.Shows o) :
    c.Shows p where
  base_eq := hShows.base_eq.trans hSame.base_eq.symm
  quote_eq := hShows.quote_eq.trans hSame.quote_eq.symm
  fee_eq := by
    rw [hShows.fee_eq]
    unfold totalFee feePaid
    rw [hSame.feeAsset_eq, hSame.feesPaid_eq]
  feeAsset_eq := by
    rw [hShows.feeAsset_eq, hSame.feeAsset_eq,
      hTerms.quoteAsset_eq]

/- The terminal event of a record completes it if it is filled. -/
theorem completionsIn_terminalEvent?
    (p : Order)
    (time : Time.Moment) :
    if p.status = .filled then
      ∃ c,
        completionsIn (p.terminalEvent? time).toList = [c] ∧
        c.orderId = p.id ∧ c.Shows p
    else
      completionsIn (p.terminalEvent? time).toList = [] := by
  unfold terminalEvent?
  cases hStatus : p.status with
  | filled =>
      rw [if_pos rfl]
      exact ⟨_, rfl, rfl, ⟨rfl, rfl, rfl, rfl⟩⟩
  | _ => rfl

theorem completionsIn_creationSince
    (p : Order)
    (before : Snapshot)
    (channel : Channel)
    (time : Time.Moment) :
    completionsIn
        (p.creationSince before channel time).toList = [] := by
  unfold creationSince
  split <;> rfl

theorem completionsIn_fillSince
    {before : Snapshot}
    {fill? : Option Event}
    (hFill : p.fillSince before time = .ok fill?) :
    completionsIn fill?.toList = [] := by
  unfold fillSince at hFill
  split at hFill
  · rw [← Except.ok.inj hFill]
    split <;> rfl
  · contradiction

/- Only the terminal event completes a record. -/
theorem completionsIn_eventsSince
    {before : Snapshot}
    {channel : Channel}
    {policy : TerminalPolicy}
    {events : List Event}
    (hEvents :
      p.eventsSince before channel time policy = .ok events) :
    completionsIn events =
      completionsIn (p.terminalUnder? policy time).toList := by
  unfold eventsSince at hEvents
  cases hFill : p.fillSince before time with
  | error why =>
      rw [hFill] at hEvents
      contradiction
  | ok fill? =>
      rw [hFill] at hEvents
      rw [← Except.ok.inj hEvents, completionsIn_append,
        completionsIn_append, completionsIn_creationSince,
        completionsIn_fillSince hFill, List.nil_append,
        List.nil_append]

------------------------------------------------------------
-- Responses
------------------------------------------------------------

/-
  How a response bears on what is known of the totals of a
  record.
-/
inductive Completes
    (o : Order)
    (r : Order × Tracker.Receipt) : Prop
  /- The record is filled, and its totals are told. -/
  | told (c : Completion)
      (hLast : completionsIn r.2.verdict.events = [c])
      (hOwn : c.orderId = o.id)
      (hShows : c.Shows r.1)
  /- The record is not filled. -/
  | unfilled
      (hNone : completionsIn r.2.verdict.events = [])
      (hStatus : r.1.status ≠ .filled)
  /- What was known is still true. -/
  | still
      (hNone : completionsIn r.2.verdict.events = [])
      (hStatus : r.1.status = o.status)
      (hShown : ∀ c : Completion, c.Shows o → c.Shows r.1)

/- Under `replay` no update changes totals that are not told. -/
theorem completes_respond
    (hWhole :
      ∀ why, (o.respond u time .replay).2.verdict ≠ .broken why) :
    o.Completes (o.respond u time .replay) := by
  have hTerms := o.apply_sameTerms u
  by_cases hOther :
      ∀ events,
        (o.respond u time .replay).2.verdict ≠ .applied events
  · rcases refused_of_respond hOther hWhole with
      ⟨outcome, hOutcome, hRefused⟩
    have hNotApplied : (o.apply u).2 ≠ .ok .applied := by
      rw [hOutcome]
      simpa using hRefused
    rcases respond_of_ne_applied hNotApplied time .replay with
      ⟨hRecord, hSilent, _⟩
    have hSame := sameAccounts_of_refused hOutcome hRefused
    refine .still ?_ ?_ ?_
    · rw [hSilent]
      rfl
    · rw [o.status_respond,
        status_apply_of_ne_applied hNotApplied]
    · intro c hShows
      rw [hRecord]
      exact hSame.shows hTerms hShows
  · rcases not_forall_not.mp hOther with ⟨events, hVerdict⟩
    rcases applied_of_respond hVerdict with ⟨_, hEvents⟩
    have hTold := completionsIn_eventsSince hEvents
    rw [terminalUnder?_replay] at hTold
    have hLast := (o.apply u).1.completionsIn_terminalEvent? time
    have hTelling :
        completionsIn
            (o.respond u time .replay).2.verdict.events =
          completionsIn
            ((o.apply u).1.terminalEvent? time).toList := by
      rw [hVerdict]
      exact hTold
    split at hLast
    · rcases hLast with ⟨c, hOnly, hOwn, hShows⟩
      refine
        .told c (hTelling.trans hOnly)
          (hOwn.trans hTerms.id_eq) ?_
      rcases o.respond_record u time .replay with
        hSame | hMarked
      · rw [hSame]
        exact hShows
      · rw [hMarked]
        exact
          ⟨hShows.base_eq, hShows.quote_eq, hShows.fee_eq,
            hShows.feeAsset_eq⟩
    · rename_i hStatus
      refine .unfilled (hTelling.trans hLast) ?_
      rw [o.status_respond]
      exact hStatus

end Order

end OrderWatch
