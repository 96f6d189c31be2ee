import Mathlib.Logic.Relation
import OrderWatch.Proofs.Order.Seen

/-
  A record is taken on by its updates, and never back.

  Between any two points in the life of a record, what the
  order asked for is the same, the venue's name for it is
  kept once there is one, and the sequences, the time of the
  latest update, the fills and the announcement are not
  lowered, lost or taken back.  The status has gone along
  the moves between statuses, from one to the next.  Updates
  that are refused or broken off count as well: they write a
  part of all this.

  Main declarations:
    * `Status.Edge`, `Status.edge_iff_canBecome`
    * `Order.Notes`, `Order.Advances`
    * `Order.advances_apply`
    * `Order.Heeds`, `Order.heeds_apply`
    * `Order.Turn`, `Order.after`
    * `Order.never_taken_back`
-/

namespace OrderWatch

------------------------------------------------------------
-- Moves between statuses
------------------------------------------------------------

namespace Status

/- A move of an order from one status to another. -/
inductive Edge : Status → Status → Prop where
  | leave
      {b : Status}
      (hOther : b ≠ .pendingCreate) :
      Edge .pendingCreate b
  | fill : Edge .open .partiallyFilled
  | reopen : Edge .partiallyFilled .open
  | close
      {a b : Status}
      (hOpen : a = .open ∨ a = .partiallyFilled)
      (hTerminal : b.isTerminal = true) :
      Edge a b

variable {a b : Status}

/- The moves are those that the machine allows. -/
theorem edge_iff_canBecome
    (a b : Status) :
    Edge a b ↔ a.canBecome b = true := by
  constructor
  · intro hEdge
    cases hEdge with
    | leave hOther => cases b <;> first | contradiction | rfl
    | fill => rfl
    | reopen => rfl
    | close hOpen hTerminal =>
        rcases hOpen with rfl | rfl <;>
          cases b <;> first | contradiction | rfl
  · intro hMove
    cases a with
    | pendingCreate =>
        refine .leave ?_
        rintro rfl
        contradiction
    | «open» =>
        cases b with
        | pendingCreate => contradiction
        | «open» => contradiction
        | partiallyFilled => exact .fill
        | _ => exact .close (.inl rfl) rfl
    | partiallyFilled =>
        cases b with
        | pendingCreate => contradiction
        | partiallyFilled => contradiction
        | «open» => exact .reopen
        | _ => exact .close (.inr rfl) rfl
    | _ => cases b <;> contradiction

/- Some moves, each from the status that the last led to. -/
abbrev Path : Status → Status → Prop :=
  Relation.ReflTransGen Edge

/- No path leads into the pending status. -/
theorem eq_of_path_to_pending
    (hPath : Path a .pendingCreate) :
    a = .pendingCreate := by
  rcases Relation.ReflTransGen.cases_tail hPath with
    hSame | ⟨b, _, hEdge⟩
  · exact hSame.symm
  · rw [edge_iff_canBecome] at hEdge
    cases b <;> contradiction

/- No path leads out of a terminal status. -/
theorem eq_of_path_of_isTerminal
    (hTerminal : a.isTerminal = true)
    (hPath : Path a b) :
    b = a := by
  rcases Relation.ReflTransGen.cases_head hPath with
    hSame | ⟨c, hEdge, _⟩
  · exact hSame.symm
  · rw [edge_iff_canBecome,
      Order.canBecome_of_isTerminal hTerminal] at hEdge
    contradiction

end Status

namespace Order

variable {o p q : Order}

------------------------------------------------------------
-- What updates take down
------------------------------------------------------------

/-
  The venue's name, the time of the latest update and the
  names of the fills are taken down and not struck out.
-/
structure Notes (o p : Order) : Prop where
  venueId : ∀ id, o.venueId = some id → p.venueId = some id
  updatedAt_le : o.updatedAt ≤ p.updatedAt
  trades_subset : ∀ id ∈ o.trades, id ∈ p.trades

namespace Notes

theorem of_eq
    (hVenue : p.venueId = o.venueId)
    (hTime : p.updatedAt = o.updatedAt)
    (hTrades : p.trades = o.trades) :
    o.Notes p where
  venueId := by
    intro id hKnown
    rw [hVenue, hKnown]
  updatedAt_le := le_of_eq hTime.symm
  trades_subset := by
    intro id hMem
    rw [hTrades]
    exact hMem

theorem trans
    (hFirst : o.Notes p)
    (hSecond : p.Notes q) :
    o.Notes q where
  venueId := by
    intro id hKnown
    exact hSecond.venueId id (hFirst.venueId id hKnown)
  updatedAt_le := hFirst.updatedAt_le.trans hSecond.updatedAt_le
  trades_subset := by
    intro id hMem
    exact hSecond.trades_subset id (hFirst.trades_subset id hMem)

end Notes

/- What any heard update takes down. -/
theorem notes_noted
    (o : Order)
    (time : Int)
    (venueId : Option VenueId) :
    o.Notes (o.noted time venueId) where
  venueId := by
    intro id hKnown
    simp [noted, hKnown]
  updatedAt_le := le_max_left o.updatedAt time
  trades_subset := fun _ hMem => hMem

theorem notes_heard
    (o : Order)
    (u : StatusUpdate) :
    o.Notes (o.heard u) := by
  have hSequence :
      o.Notes { o with statusSequence := some u.sequence } :=
    .of_eq rfl rfl rfl
  exact hSequence.trans (notes_noted _ u.time u.venueId)

/- A fill is taken down beside those before. -/
theorem notes_taking
    (o : Order)
    (f : Fill) :
    o.Notes (o.taking f) := by
  have hTrade :
      o.Notes
        { o with
          tradeSequence := some f.sequence
          trades := o.trades.insert f.tradeId } :=
    { venueId := fun _ hKnown => hKnown
      updatedAt_le := le_refl o.updatedAt
      trades_subset := by
        intro id hMem
        exact Std.ExtTreeSet.mem_insert.mpr (.inr hMem) }
  exact hTrade.trans (notes_noted _ f.time f.venueId)

theorem StatusStep.notes
    {u : StatusUpdate}
    {outcome : Outcome}
    (hStep : o.StatusStep u p outcome) :
    o.Notes p := by
  have hHeard := o.notes_heard u
  cases hStep with
  | unchanged => exact hHeard
  | moved => exact hHeard.trans (.of_eq rfl rfl rfl)
  | refused => exact hHeard
  | _ => exact .of_eq rfl rfl rfl

theorem FillStep.notes
    {f : Fill}
    {outcome : Except Overflow Outcome}
    (hStep : o.FillStep f p outcome) :
    o.Notes p := by
  have hTaken := o.notes_taking f
  cases hStep with
  | brokenBase => exact hTaken
  | brokenQuote => exact hTaken.trans (.of_eq rfl rfl rfl)
  | brokenFee => exact hTaken.trans (.of_eq rfl rfl rfl)
  | free =>
      rw [conclude_eq]
      exact hTaken.trans (.of_eq rfl rfl rfl)
  | charged =>
      rw [conclude_eq]
      exact hTaken.trans (.of_eq rfl rfl rfl)
  | _ => exact .of_eq rfl rfl rfl

theorem notes_apply
    (o : Order)
    (u : Update) :
    o.Notes (o.apply u).1 := by
  cases u with
  | status u => exact (o.applyStatus_step u).notes
  | fill f => exact (o.applyFill_step f).notes

------------------------------------------------------------
-- Advance
------------------------------------------------------------

/- How a record stands to an earlier one of the same order. -/
structure Advances (o p : Order) : Prop
    extends o.Notes p where
  /- The terms are the same, the announcement left aside. -/
  terms : o.announce.SameTerms p.announce
  announced : o.announced = true → p.announced = true
  sequence_le :
    ∀ channel last, o.sequenceOf channel = some last →
      ∃ later, p.sequenceOf channel = some later ∧ last ≤ later
  path : Status.Path o.status p.status

namespace Advances

theorem refl
    (o : Order) :
    o.Advances o where
  toNotes := .of_eq rfl rfl rfl
  terms := .refl o.announce
  announced := fun hMarked => hMarked
  sequence_le := fun _ last hLast => ⟨last, hLast, le_refl _⟩
  path := Relation.ReflTransGen.refl

theorem trans
    (hFirst : o.Advances p)
    (hSecond : p.Advances q) :
    o.Advances q where
  toNotes := hFirst.toNotes.trans hSecond.toNotes
  terms := hFirst.terms.trans hSecond.terms
  announced := hSecond.announced ∘ hFirst.announced
  sequence_le := by
    intro channel first hSeen
    rcases hFirst.sequence_le channel first hSeen with
      ⟨next, hNext, hUp⟩
    rcases hSecond.sequence_le channel next hNext with
      ⟨last, hLast, hUpAgain⟩
    exact ⟨last, hLast, hUp.trans hUpAgain⟩
  path := hFirst.path.trans hSecond.path

/- A record that is pending has not been anything else. -/
theorem pending
    (h : o.Advances p)
    (hPending : p.status = .pendingCreate) :
    o.status = .pendingCreate :=
  Status.eq_of_path_to_pending (hPending ▸ h.path)

/- A record that is done keeps its status. -/
theorem done
    (h : o.Advances p)
    (hDone : o.isDone = true) :
    p.status = o.status :=
  Status.eq_of_path_of_isTerminal hDone h.path

end Advances

/- A sequence that is fresh lies above the last one. -/
theorem lt_of_fresh
    {channel : Channel}
    {sequence last : Nat}
    (hFresh : o.staleAt channel sequence = none)
    (hLast : o.sequenceOf channel = some last) :
    last < sequence := by
  by_contra hNot
  have hStale : (o.staleAt channel sequence).isSome :=
    (isSome_staleAt_iff o channel sequence).mpr
      ⟨last, hLast, Nat.not_lt.mp hNot⟩
  rw [hFresh] at hStale
  contradiction

/- An update moves the status along one edge at most. -/
theorem edge_apply
    (o : Order)
    (u : Update) :
    (o.apply u).1.status = o.status ∨
      Status.Edge o.status (o.apply u).1.status := by
  rcases o.apply_moved u with hSame | ⟨_, hMove⟩
  · exact .inl hSame
  · exact .inr ((Status.edge_iff_canBecome _ _).mpr hMove)

/- An update takes a record on, whatever becomes of it. -/
theorem advances_apply
    (o : Order)
    (u : Update) :
    o.Advances (o.apply u).1 where
  toNotes := o.notes_apply u
  terms :=
    let hTerms := o.apply_sameTerms u
    { hTerms with announced_eq := rfl }
  announced := by
    rw [(o.apply_sameTerms u).announced_eq]
    exact fun hMarked => hMarked
  sequence_le := by
    intro channel last hLast
    rw [sequenceOf_apply]
    by_cases hTaken : channel = u.channel ∧ o.Fresh u
    · rw [if_pos hTaken]
      rcases hTaken with ⟨rfl, _, hFresh⟩
      have hUp := lt_of_fresh hFresh hLast
      exact ⟨u.sequence, rfl, Nat.le_of_lt hUp⟩
    · rw [if_neg hTaken]
      exact ⟨last, hLast, le_refl last⟩
  path := by
    rcases o.edge_apply u with hSame | hEdge
    · rw [hSame]
    · exact .single hEdge

theorem advances_announce
    (o : Order) :
    o.Advances o.announce where
  toNotes := .of_eq rfl rfl rfl
  terms := .refl o.announce
  announced := fun _ => rfl
  sequence_le := fun _ last hLast => ⟨last, hLast, le_refl _⟩
  path := Relation.ReflTransGen.refl

------------------------------------------------------------
-- One update
------------------------------------------------------------

/- An update was not for the record, or not a new one. -/
def Idle (outcome : Except Overflow Outcome) : Prop :=
  outcome = .ok (.rejected .mismatchedOrder) ∨
    ∃ last, outcome = .ok (.stale last)

/- How a record is taken on by an update. -/
structure Heeds
    (o : Order)
    (u : Update)
    (p : Order)
    (outcome : Except Overflow Outcome) : Prop where
  /- An update is not heard on the other channel. -/
  other :
    ∀ channel, channel ≠ u.channel →
      p.sequenceOf channel = o.sequenceOf channel
  idle : Idle outcome → p = o
  /- On its own channel it is a step up. -/
  rise :
    ¬ Idle outcome →
      p.sequenceOf u.channel = some u.sequence ∧
      ∀ last, o.sequenceOf u.channel = some last →
        last < u.sequence
  edge : p.status = o.status ∨ Status.Edge o.status p.status

theorem StatusStep.eq_of_idle
    {u : StatusUpdate}
    {outcome : Outcome}
    (hStep : o.StatusStep u p outcome)
    (hIdle : Idle (.ok outcome)) :
    p = o := by
  cases hStep with
  | mismatched => rfl
  | stale => rfl
  | _ => simp [Idle] at hIdle

theorem FillStep.eq_of_idle
    {f : Fill}
    {outcome : Except Overflow Outcome}
    (hStep : o.FillStep f p outcome)
    (hIdle : Idle outcome) :
    p = o := by
  cases hStep with
  | mismatched => rfl
  | stale => rfl
  | _ => simp [Idle] at hIdle

theorem StatusStep.fresh
    {u : StatusUpdate}
    {outcome : Outcome}
    (hStep : o.StatusStep u p outcome)
    (hHeard : ¬ Idle (.ok outcome)) :
    o.Fresh (.status u) := by
  cases hStep with
  | mismatched => exact absurd (.inl rfl) hHeard
  | stale last => exact absurd (.inr ⟨last, rfl⟩) hHeard
  | unchanged hId hFresh => exact ⟨hId, hFresh⟩
  | moved hId hFresh => exact ⟨hId, hFresh⟩
  | refused hId hFresh => exact ⟨hId, hFresh⟩

theorem FillStep.fresh
    {f : Fill}
    {outcome : Except Overflow Outcome}
    (hStep : o.FillStep f p outcome)
    (hHeard : ¬ Idle outcome) :
    o.Fresh (.fill f) := by
  have hAccepted :
      o.Accepts f → o.Fresh (.fill f) :=
    fun hAccepts => ⟨hAccepts.addressed, hAccepts.fresh⟩
  cases hStep with
  | mismatched => exact absurd (.inl rfl) hHeard
  | stale last => exact absurd (.inr ⟨last, rfl⟩) hHeard
  | empty hId hFresh => exact ⟨hId, hFresh⟩
  | duplicate hId hFresh => exact ⟨hId, hFresh⟩
  | brokenBase hAccepts => exact hAccepted hAccepts
  | brokenQuote _ hAccepts => exact hAccepted hAccepts
  | brokenFee _ _ hAccepts => exact hAccepted hAccepts
  | free _ _ hAccepts => exact hAccepted hAccepts
  | charged _ _ _ hAccepts => exact hAccepted hAccepts

theorem heeds_apply
    (o : Order)
    (u : Update) :
    o.Heeds u (o.apply u).1 (o.apply u).2 where
  other := by
    intro channel hOther
    rw [sequenceOf_apply, if_neg (fun h => hOther h.1)]
  idle := by
    cases u with
    | status u => exact (o.applyStatus_step u).eq_of_idle
    | fill f => exact (o.applyFill_step f).eq_of_idle
  rise := by
    intro hHeard
    have hFresh : o.Fresh u := by
      cases u with
      | status u => exact (o.applyStatus_step u).fresh hHeard
      | fill f => exact (o.applyFill_step f).fresh hHeard
    rw [sequenceOf_apply, if_pos ⟨rfl, hFresh⟩]
    exact ⟨rfl, fun last hLast => lt_of_fresh hFresh.2 hLast⟩
  edge := o.edge_apply u

------------------------------------------------------------
-- Lives of records
------------------------------------------------------------

/- What can happen to a record. -/
inductive Turn where
  | update (u : Update)
  /- Its terminal event has been published. -/
  | announce

/- The record after some turns. -/
def after (o : Order) : List Turn → Order
  | [] => o
  | .update u :: turns => (o.apply u).1.after turns
  | .announce :: turns => o.announce.after turns

theorem advances_after
    (o : Order)
    (turns : List Turn) :
    o.Advances (o.after turns) := by
  induction turns generalizing o with
  | nil => exact .refl o
  | cons turn turns ih =>
      cases turn with
      | update u => exact (o.advances_apply u).trans (ih _)
      | announce => exact o.advances_announce.trans (ih _)

/-
  From any point in the life of a record on, whatever
  happens to it and whatever becomes of it, nothing is taken
  back: no status that has been left, no name, fill, time,
  sequence or announcement.  An update is heard on its own
  channel alone, and takes it up unless it comes late or is
  meant for another order.
-/
theorem never_taken_back
    (o : Order)
    (earlier later : List Turn) :
    let p := o.after earlier
    let q := p.after later
    p.Advances q ∧
    (q.status = .pendingCreate → p.status = .pendingCreate) ∧
    (p.isDone = true → q.status = p.status) ∧
    ∀ u, p.Heeds u (p.apply u).1 (p.apply u).2 := by
  intro p q
  have hAdvances : p.Advances q := p.advances_after later
  exact
    ⟨hAdvances, hAdvances.pending, hAdvances.done,
      p.heeds_apply⟩

end Order

end OrderWatch
