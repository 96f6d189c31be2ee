import OrderWatch.Proofs.Order.Response

/-
  How the end of a record is told under either policy.

  A record that is done may still be updated.  Under `replay`
  its terminal event is told again after every such update,
  under `once` it is not.  This is all the difference that the
  policy makes: the record is the same afterwards, its mark
  included, and the other events are the same.

  Main declarations:
    * `Order.Agree`
    * `Order.Settled.agree`
    * `Verdict.RepeatedBy`, `Order.Agree.repeatedBy`
-/

namespace OrderWatch

namespace Order

variable {o p : Order} {time : Time.Moment}

/-
  How two responses of a record go together, the first one
  under `once` and the second one under `replay`.
-/
inductive Agree (o : Order) :
    Order × Tracker.Receipt → Order × Tracker.Receipt → Prop
  /- The update has not been applied. -/
  | refused (r : Order × Tracker.Receipt)
      (hRefused : ∀ events, r.2.verdict ≠ .applied events)
      (hMark : r.1.announced = o.announced) :
      Agree o r r
  /- The record is not done. -/
  | unfinished (p : Order) (events : List Event) (retire : Bool)
      (hNews : ∀ e ∈ events, e.isTerminal = false)
      (hBefore : o.announced = false)
      (hMark : p.announced = false) :
      Agree o (p, ⟨.applied events, retire⟩)
        (p, ⟨.applied events, retire⟩)
  /- The update has closed the record. -/
  | first (p : Order) (events : List Event) (retire : Bool)
      (e : Event)
      (hNews : ∀ e ∈ events, e.isTerminal = false)
      (hEnd : e.isTerminal = true ∧ e.orderId = o.id)
      (hBefore : o.announced = false)
      (hMark : p.announced = true) :
      Agree o (p, ⟨.applied (events ++ [e]), retire⟩)
        (p, ⟨.applied (events ++ [e]), retire⟩)
  /- The record had been closed before. -/
  | again (p : Order) (events : List Event) (retire : Bool)
      (e : Event)
      (hNews : ∀ e ∈ events, e.isTerminal = false)
      (hEnd : e.isTerminal = true ∧ e.orderId = o.id)
      (hBefore : o.announced = true)
      (hMark : p.announced = true) :
      Agree o (p, ⟨.applied events, retire⟩)
        (p, ⟨.applied (events ++ [e]), retire⟩)

/- A record need not be marked twice. -/
theorem announce_of_announced
    (hMark : o.announced = true) :
    o.announce = o := by
  unfold announce
  rw [← hMark]

/- The policy matters to updates only that are applied. -/
theorem respond_policy
    {u : Update}
    (hOther : (o.apply u).2 ≠ .ok .applied)
    (policy policy' : TerminalPolicy) :
    o.respond u time policy = o.respond u time policy' := by
  unfold respond settle
  split
  · rfl
  · rfl
  · rfl
  · rfl
  · rename_i hApplied
    exact absurd hApplied hOther

theorem terminalUnder?_once
    (o : Order)
    (time : Time.Moment) :
    o.terminalUnder? .once time =
      if o.announced then none else o.terminalEvent? time := by
  unfold terminalUnder?
  cases o.announced <;> rfl

theorem terminalUnder?_replay
    (o : Order)
    (time : Time.Moment) :
    o.terminalUnder? .replay time = o.terminalEvent? time := by
  unfold terminalUnder?
  cases o.announced <;> rfl

/- A settled record responds alike under both policies. -/
theorem Settled.agree
    (hSettled : o.Settled)
    (u : Update)
    (time : Time.Moment) :
    o.Agree (o.respond u time .once)
      (o.respond u time .replay) := by
  have hUnsigned := apply_unsigned hSettled.unsigned u
  have hMark := (o.apply_sameTerms u).announced_eq
  have hId := (o.apply_sameTerms u).id_eq
  by_cases hApplied : (o.apply u).2 = .ok .applied
  · rcases eventsSince_split hSettled.unsigned hUnsigned
        u.channel time with ⟨news, hEvents, hOpen⟩
    have hNews : ∀ e ∈ news, e.isTerminal = false :=
      fun e hMem => (hOpen e hMem).1
    have hSilent : news.any Event.isTerminal = false := by
      rw [List.any_eq_false]
      intro e hMem
      rw [hNews e hMem]
      decide
    rw [respond_of_applied hApplied (hEvents .once),
      respond_of_applied hApplied (hEvents .replay)]
    rw [terminalUnder?_once, terminalUnder?_replay, hMark]
    cases hLast : (o.apply u).1.terminalEvent? time with
    | none =>
        have hStill : (o.apply u).1.isDone = false := by
          rw [← isSome_terminalEvent? _ time, hLast]
          rfl
        have hBefore : o.announced = false := by
          rw [hSettled.announced_eq]
          by_contra hDone
          have hDone : o.isDone = true := by simpa using hDone
          unfold isDone at hStill hDone
          rw [status_apply_of_isDone hDone, hDone] at hStill
          contradiction
        simp only [ite_self, Option.toList_none,
          List.append_nil, hSilent]
        exact
          .unfinished _ news _ hNews hBefore (hMark.trans hBefore)
    | some e =>
        have hEnd : e.isTerminal = true ∧ e.orderId = o.id :=
          ⟨isTerminal_terminalEvent? hLast,
            (orderId_terminalEvent? hLast).trans hId⟩
        have hLoud :
            (news ++ [e]).any Event.isTerminal = true := by
          simp [hEnd.1]
        cases hBefore : o.announced with
        | false =>
            rw [if_neg Bool.false_ne_true, Option.toList_some,
              hLoud, if_pos rfl]
            exact
              .first (o.apply u).1.announce news _ e hNews hEnd
                hBefore rfl
        | true =>
            have hMarked := hMark.trans hBefore
            rw [if_pos rfl, Option.toList_none,
              Option.toList_some, List.append_nil, hSilent,
              hLoud, if_neg Bool.false_ne_true, if_pos rfl,
              announce_of_announced hMarked]
            exact .again _ news _ e hNews hEnd hBefore hMarked
  · have hOther : ∀ events,
        (o.respond u time .once).2.verdict ≠ .applied events :=
      fun events hVerdict =>
        hApplied (applied_of_respond hVerdict).1
    rw [respond_policy hApplied .replay .once]
    refine .refused _ hOther ?_
    rw [(respond_of_ne_applied hApplied time .once).1, hMark]

/- The record afterwards does not depend on the policy. -/
theorem Agree.record_eq
    {r r' : Order × Tracker.Receipt}
    (h : o.Agree r r') :
    r'.1 = r.1 ∧ r'.2.retire = r.2.retire := by
  cases h <;> exact ⟨rfl, rfl⟩

end Order

------------------------------------------------------------
-- Answers
------------------------------------------------------------

/-
  How two answers to an update go together: they are the same,
  but if the terminal event of the record has been told before
  then the second one tells it again, as the last thing.
-/
def Verdict.RepeatedBy (told : Bool) (v : Verdict) : Verdict → Prop
  | .applied events' =>
      if told then
        ∃ events e,
          v = .applied events ∧
          events' = events ++ [e] ∧
          e.isTerminal = true ∧
          ∀ n ∈ events, n.isTerminal = false
      else
        v = .applied events'
  | v' => v = v'

theorem Order.Agree.repeatedBy
    {o : Order}
    {r r' : Order × Tracker.Receipt}
    (h : o.Agree r r') :
    r.2.verdict.RepeatedBy o.announced r'.2.verdict := by
  cases h with
  | refused r hRefused =>
      unfold Verdict.RepeatedBy
      split
      · rename_i events hVerdict
        exact absurd hVerdict (hRefused events)
      · rfl
  | unfinished p events retire hNews hBefore =>
      unfold Verdict.RepeatedBy
      rw [hBefore]
      rfl
  | first p events retire e hNews hEnd hBefore =>
      unfold Verdict.RepeatedBy
      rw [hBefore]
      rfl
  | again p events retire e hNews hEnd hBefore =>
      unfold Verdict.RepeatedBy
      rw [hBefore]
      exact ⟨events, e, rfl, rfl, hEnd.1, hNews⟩

end OrderWatch
