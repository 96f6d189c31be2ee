import OrderWatch.Proofs.Order.Response

/-
  Updates that a record has seen.

  Every update of its own that a record responds to leaves
  the sequence of its channel at least as high as that of the
  update, whatever becomes of it: it may be applied, change
  nothing, be refused or broken off.  Sequences do not go
  down, so from then on the update is stale.

  Main declarations:
    * `Order.sequenceOf_apply`
    * `Order.Seen`
    * `Order.seen_respond`, `Order.Seen.respond`
    * `Order.Seen.respond_eq`
-/

namespace OrderWatch

namespace Order

variable {o p : Order} {time : Time.Moment}

------------------------------------------------------------
-- Sequences
------------------------------------------------------------

/- An update of a record that is newer than its channel. -/
def Fresh (o : Order) (u : Update) : Prop :=
  u.orderId = o.id ∧ o.staleAt u.channel u.sequence = none

instance (o : Order) (u : Update) : Decidable (o.Fresh u) :=
  inferInstanceAs (Decidable (_ ∧ _))

theorem sequenceOf_conclude
    (o : Order)
    (f : Fill)
    (channel : Channel) :
    (o.conclude f).sequenceOf channel = o.sequenceOf channel := by
  rw [conclude_eq]
  cases channel <;> rfl

theorem StatusStep.sequenceOf_eq
    {u : StatusUpdate}
    {outcome : Outcome}
    (hStep : o.StatusStep u p outcome)
    (channel : Channel) :
    p.sequenceOf channel =
      if channel = .status ∧ o.Fresh (.status u) then
        some u.sequence
      else
        o.sequenceOf channel := by
  cases channel with
  | trade => cases hStep <;> rfl
  | status =>
      cases hStep with
      | mismatched hOther =>
          rw [if_neg (fun h => hOther h.2.1)]
      | stale last hId hStale =>
          rw [if_neg]
          rintro ⟨_, _, hFresh⟩
          exact absurd (hStale.symm.trans hFresh) (by simp)
      | unchanged hId hFresh =>
          rw [if_pos ⟨rfl, hId, hFresh⟩]
          rfl
      | moved hId hFresh =>
          rw [if_pos ⟨rfl, hId, hFresh⟩]
          rfl
      | refused hId hFresh =>
          rw [if_pos ⟨rfl, hId, hFresh⟩]
          rfl

theorem FillStep.sequenceOf_eq
    {f : Fill}
    {outcome : Except Overflow Outcome}
    (hStep : o.FillStep f p outcome)
    (channel : Channel) :
    p.sequenceOf channel =
      if channel = .trade ∧ o.Fresh (.fill f) then
        some f.sequence
      else
        o.sequenceOf channel := by
  cases channel with
  | status =>
      cases hStep with
      | free => rw [sequenceOf_conclude]; rfl
      | charged => rw [sequenceOf_conclude]; rfl
      | _ => rfl
  | trade =>
      have hTaken :
          ∀ hAccepts : o.Accepts f,
            (if Channel.trade = .trade ∧ o.Fresh (.fill f) then
                some f.sequence
              else
                o.sequenceOf .trade) = some f.sequence :=
        fun hAccepts =>
          if_pos ⟨rfl, hAccepts.addressed, hAccepts.fresh⟩
      cases hStep with
      | mismatched hOther =>
          rw [if_neg (fun h => hOther h.2.1)]
      | stale last hId hStale =>
          rw [if_neg]
          rintro ⟨_, _, hFresh⟩
          exact absurd (hStale.symm.trans hFresh) (by simp)
      | empty hId hFresh =>
          rw [if_pos ⟨rfl, hId, hFresh⟩]
          rfl
      | duplicate hId hFresh =>
          rw [if_pos ⟨rfl, hId, hFresh⟩]
          rfl
      | brokenBase hAccepts =>
          rw [hTaken hAccepts]
          rfl
      | brokenQuote base hAccepts =>
          rw [hTaken hAccepts]
          rfl
      | brokenFee base quote hAccepts =>
          rw [hTaken hAccepts]
          rfl
      | free base quote hAccepts =>
          rw [hTaken hAccepts, sequenceOf_conclude]
          rfl
      | charged base quote total hAccepts =>
          rw [hTaken hAccepts, sequenceOf_conclude]
          rfl

/- Only a fresh update takes its channel on. -/
theorem sequenceOf_apply
    (o : Order)
    (u : Update)
    (channel : Channel) :
    (o.apply u).1.sequenceOf channel =
      if channel = u.channel ∧ o.Fresh u then
        some u.sequence
      else
        o.sequenceOf channel := by
  cases u with
  | status u => exact (o.applyStatus_step u).sequenceOf_eq channel
  | fill f => exact (o.applyFill_step f).sequenceOf_eq channel

theorem sequenceOf_respond
    (o : Order)
    (u : Update)
    (time : Time.Moment)
    (policy : TerminalPolicy)
    (channel : Channel) :
    (o.respond u time policy).1.sequenceOf channel =
      if channel = u.channel ∧ o.Fresh u then
        some u.sequence
      else
        o.sequenceOf channel := by
  rw [← sequenceOf_apply]
  rcases o.respond_record u time policy with hSame | hMarked
  · rw [hSame]
  · rw [hMarked]
    cases channel <;> rfl

------------------------------------------------------------
-- Seen updates
------------------------------------------------------------

/- An update of a record that is stale for it. -/
structure Seen (o : Order) (u : Update) : Prop where
  addressed : u.orderId = o.id
  stale : (o.staleAt u.channel u.sequence).isSome

/- A channel that has come as far as an update. -/
theorem isSome_staleAt_iff
    (o : Order)
    (channel : Channel)
    (sequence : Nat) :
    (o.staleAt channel sequence).isSome ↔
      ∃ last, o.sequenceOf channel = some last ∧
        sequence ≤ last := by
  unfold staleAt
  rw [Option.isSome_filter, Option.any_eq_true]
  simp

/- An update of its own is seen once it is responded to. -/
theorem seen_respond
    {u : Update}
    (hId : u.orderId = o.id)
    (time : Time.Moment)
    (policy : TerminalPolicy) :
    (o.respond u time policy).1.Seen u where
  addressed := by rw [id_respond, hId]
  stale := by
    rw [isSome_staleAt_iff, sequenceOf_respond]
    by_cases hFresh : o.Fresh u
    · rw [if_pos ⟨rfl, hFresh⟩]
      exact ⟨u.sequence, rfl, le_refl _⟩
    · rw [if_neg (fun h => hFresh h.2), ← isSome_staleAt_iff,
        Option.isSome_iff_ne_none]
      exact fun hNone => hFresh ⟨hId, hNone⟩

namespace Seen

variable {u : Update}

/- What has been seen stays seen. -/
theorem respond
    (hSeen : o.Seen u)
    (v : Update)
    (time : Time.Moment)
    (policy : TerminalPolicy) :
    (o.respond v time policy).1.Seen u where
  addressed := by rw [id_respond, hSeen.addressed]
  stale := by
    rcases (isSome_staleAt_iff o _ _).mp hSeen.stale with
      ⟨last, hLast, hReached⟩
    rw [isSome_staleAt_iff, sequenceOf_respond]
    split
    · rename_i hTaken
      rcases hTaken with ⟨hChannel, _, hFresh⟩
      refine ⟨v.sequence, rfl, ?_⟩
      rw [← hChannel] at hFresh
      unfold staleAt at hFresh
      rw [hLast, Option.filter_some] at hFresh
      by_contra hLower
      have hStale : v.sequence ≤ last := by omega
      simp [hStale] at hFresh
    · exact ⟨last, hLast, hReached⟩

/- An update that has been seen is answered as stale. -/
theorem respond_eq
    (hSeen : o.Seen u)
    (time : Time.Moment)
    (policy : TerminalPolicy) :
    ∃ last,
      o.staleAt u.channel u.sequence = some last ∧
      o.respond u time policy =
        (o, .closed (.ignored
          (.staleUpdate u.orderId u.channel u.sequence last))) := by
  rcases Option.isSome_iff_exists.mp hSeen.stale with
    ⟨last, hStale⟩
  have hApply : o.apply u = (o, .ok (.stale last)) := by
    have hId := hSeen.addressed
    cases u with
    | status u =>
        simp only [Update.orderId] at hId
        simp only [Update.channel, Update.sequence] at hStale
        simp [apply, applyStatus, hId, hStale]
    | fill f =>
        simp only [Update.orderId] at hId
        simp only [Update.channel, Update.sequence] at hStale
        simp [apply, applyFill, hId, hStale]
  refine ⟨last, hStale, ?_⟩
  unfold Order.respond
  rw [hApply, hSeen.addressed]
  rfl

end Seen

end Order

end OrderWatch
