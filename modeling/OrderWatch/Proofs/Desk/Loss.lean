import OrderWatch.Proofs.Book.Loss
import OrderWatch.Proofs.Desk.Simulation
import OrderWatch.Proofs.Order.Seen

/-
  Two desks, one of which has lost some expired orders.

  Listeners are aloof if they neither change the tracker nor
  look at it; what they do with an event then depends on the
  sink and on what they remember.  Two desks that agree up to
  expired orders agree after any action, and answer it alike
  up to the count of a purge.

  Main declarations:
    * `Hearing.Aloof`, `Hearing.Aloof.detached`
    * `Desk.Forgets`, `Answer.Matches`
    * `Desk.Forgets.perform`
    * `Desk.Absorbs`, `Desk.Forgets.copy`
    * `Desk.Roomy`
    * `Desk.Forgets.run`
-/

namespace OrderWatch

variable {L μ : Type}

------------------------------------------------------------
-- Aloof listeners
------------------------------------------------------------

/- Still listeners that do not look at the tracker. -/
structure Hearing.Aloof (hear : Hearing L μ) : Prop where
  still : hear.Still
  outside :
    ∀ l e d d', d.SameOutside d' →
      (hear l e d).1.SameOutside (hear l e d').1

theorem Hearing.aloof_idle :
    (Hearing.idle : Hearing L μ).Aloof where
  still := Hearing.still_idle
  outside := fun _ _ _ _ hSame => hSame

theorem Hearing.Aloof.detached
    {hear : Hearing L μ}
    (hAloof : hear.Aloof) :
    hear.Detached where
  quiet := hAloof.still.quiet
  around := by
    intro l e d d' hSame
    exact
      { toSameOutside :=
          hAloof.outside l e d d' hSame.toSameOutside
        clock_eq := by
          rw [hAloof.still.clock_eq, hAloof.still.clock_eq,
            hSame.clock_eq] }

namespace Desk

variable {hear : Hearing L μ} {d d' : Desk L μ}

/- An update that publishes nothing leaves what is around. -/
theorem around_of_silent
    (hear : Hearing L μ)
    (d : Desk L μ)
    (u : Update)
    (hSilent : (d.process hear u).2.events = []) :
    d.SameAround (d.process hear u).1 := by
  have hHeard : d.heard hear u = d.received u := by
    rw [verdict_process] at hSilent
    unfold heard
    rw [hSilent]
    rfl
  have hReceived : d.SameAround (d.heard hear u) := by
    rw [hHeard]
    exact ⟨⟨rfl, rfl⟩, clock_received d u⟩
  exact hReceived.trans (around_process hear d u)

/- Under still listeners no time passes until then. -/
theorem displaced_known
    (hStill : hear.Still)
    {u : Update}
    {o : Order}
    (hSome :
      (d.tracker.book.find d.tracker.now u.orderId).2 =
        some o) :
    let response :=
      o.respond u d.tracker.clock.now d.tracker.policy
    let written :=
      (d.tracker.book.find d.tracker.now u.orderId).1.write
        response.1
    d.displaced hear (.update u) =
      if response.2.retire then
        (written.stop d.tracker.now u.orderId).2.getD 0
      else
        0 := by
  have hNow :
      (d.heard hear u).tracker.now = d.tracker.now :=
    congrArg Time.Clock.elapsed (clock_heard hStill hSome)
  have hDisplaced := displaced_update hStill.quiet hSome
  rw [hNow] at hDisplaced
  exact hDisplaced

------------------------------------------------------------
-- Losses
------------------------------------------------------------

/- A desk `d'` is a desk `d` but for expired orders. -/
structure Forgets (d d' : Desk L μ) : Prop where
  policy_eq : d'.tracker.policy = d.tracker.policy
  clock_eq : d'.tracker.clock = d.tracker.clock
  book : d.tracker.book.Forgets d'.tracker.book d.tracker.now
  outside : d.SameOutside d'

end Desk

/- The same answer, or a lower count of a purge. -/
def Answer.Matches : Answer → Answer → Prop
  | .purged n, .purged n' => n' ≤ n
  | r, r' => r' = r

theorem Answer.matches_of_eq
    {r r' : Answer}
    (hSame : r' = r) :
    r.Matches r' := by
  subst hSame
  cases r' with
  | purged n => exact le_refl n
  | _ => rfl

/-
  A copy of an update is answered as stale, or as unknown if
  a desk without the copies does not find its order.
-/
def Desk.Absorbs
    (d : Desk L μ)
    (u : Update)
    (v : Verdict) : Prop :=
  match (d.tracker.fetch u.orderId).2 with
  | some o =>
      ∃ last,
        o.staleAt u.channel u.sequence = some last ∧
        v = .ignored
          (.staleUpdate u.orderId u.channel u.sequence last)
  | none => v = .ignored (.unknownOrder u.orderId)

/- An absorbed copy publishes nothing. -/
theorem Desk.Absorbs.events_eq
    {d : Desk L μ}
    {u : Update}
    {v : Verdict}
    (hAbsorbs : d.Absorbs u v) :
    v.events = [] := by
  unfold Absorbs at hAbsorbs
  split at hAbsorbs
  · rcases hAbsorbs with ⟨last, _, rfl⟩
    rfl
  · rw [hAbsorbs]
    rfl

namespace Desk.Forgets

variable {hear : Hearing L μ} {d d' : Desk L μ}

theorem related
    (h : d.Forgets d') :
    Related Cache.Forgets d d' where
  policy_eq := h.policy_eq
  around := ⟨h.outside, h.clock_eq⟩
  book := h.book.related

theorem of_related
    (h : Related Cache.Forgets d d') :
    d.Forgets d' where
  policy_eq := h.policy_eq
  clock_eq := h.around.clock_eq
  book := .of_related h.book
  outside := h.around.toSameOutside

theorem now_eq
    (h : d.Forgets d') :
    d'.tracker.now = d.tracker.now :=
  h.related.now_eq

/- One action is done with both desks. -/
theorem perform
    (hAloof : hear.Aloof)
    (h : d.Forgets d')
    {a : Action}
    (hRoom : d.displaced hear a = 0)
    (hLater :
      d.tracker.now ≤ (d.perform hear a).1.tracker.now) :
    (d.perform hear a).1.Forgets (d'.perform hear a).1 ∧
      (d.perform hear a).2.Matches (d'.perform hear a).2 := by
  cases hPurges : a.purges with
  | false =>
      rcases h.related.perform Cache.simulation_forgets
          hAloof.detached hPurges hRoom hLater with
        ⟨hNext, hAnswer⟩
      exact ⟨of_related hNext, Answer.matches_of_eq hAnswer⟩
  | true =>
      have hBook := h.book.purge.related
      cases a with
      | purge =>
          rcases d.tracker.core_purge with ⟨hCore, hCount⟩
          rcases d'.tracker.core_purge with ⟨hCore', hCount'⟩
          rw [h.now_eq] at hCore' hCount'
          have hNext := h.related.withTracker hCore hCore' hBook
          refine ⟨of_related hNext, ?_⟩
          change d'.tracker.purge.2 ≤ d.tracker.purge.2
          rw [hCount, hCount']
          exact h.book.retired.purge_le
      | sweep =>
          have hCore := d.tracker.core_sweep
          have hCore' := d'.tracker.core_sweep
          rw [h.now_eq] at hCore'
          have hNext := h.related.withTracker hCore hCore' hBook
          exact ⟨of_related hNext, rfl⟩
      | _ => contradiction

/-
  A further copy of an update that its record has seen does
  nothing but look the record up.
-/
theorem copy
    (hStill : hear.Still)
    (h : d.Forgets d')
    {u : Update}
    (hSeen :
      ∀ o, (d.tracker.fetch u.orderId).2 = some o → o.Seen u) :
    d.Forgets (d'.process hear u).1 ∧
      d.Absorbs u (d'.process hear u).2 := by
  have hLooked := h.book.findAgain u.orderId
  have hSame := (h.book.find u.orderId).2
  have hSilent := around_of_silent hear d' u
  unfold Absorbs
  cases hFound : (d.tracker.fetch u.orderId).2 with
  | none =>
      have hFound' := hSame.trans hFound
      rw [← h.now_eq] at hFound'
      rcases process_unknown hear hFound' with
        ⟨hCore', hVerdict'⟩
      rw [h.now_eq] at hCore'
      have hAround :=
        h.related.around.trans
          (hSilent (by rw [hVerdict']; rfl))
      have hNext :=
        Related.of_core rfl hCore' h.policy_eq hLooked.related
          hAround
      exact ⟨of_related hNext, hVerdict'⟩
  | some o =>
      have hFound' := hSame.trans hFound
      have hRecord := hSeen o hFound
      have hRewritten :=
        h.book.writeAgain hRecord.addressed.symm hFound'
      rw [← h.now_eq] at hFound'
      rcases process_still hStill hFound' with
        ⟨hVerdict', hCore'⟩
      rcases hRecord.respond_eq d'.tracker.clock.now
          d'.tracker.policy with ⟨last, hStale, hResponse⟩
      rw [hResponse] at hVerdict' hCore'
      rw [h.now_eq] at hCore'
      have hAround :=
        h.related.around.trans
          (hSilent (by rw [hVerdict']; rfl))
      have hNext :=
        Related.of_core rfl hCore' h.policy_eq
          hRewritten.related hAround
      exact ⟨of_related hNext, last, hStale, hVerdict'⟩

end Desk.Forgets

------------------------------------------------------------
-- Runs
------------------------------------------------------------

namespace Desk

variable {hear : Hearing L μ} {d d' : Desk L μ}

/- No action of a run pushes anything out of the cache. -/
def Roomy
    (hear : Hearing L μ)
    (d : Desk L μ)
    (as : List Action) : Prop :=
  Along hear (fun d a => d.displaced hear a = 0) d as

/- Both desks do the same actions. -/
theorem Forgets.run
    (hAloof : hear.Aloof)
    (h : d.Forgets d')
    {as : List Action}
    (hRoom : Roomy hear d as)
    (hSteady : Steady hear d as) :
    (d.run hear as).1.Forgets (d'.run hear as).1 := by
  induction as generalizing d d' with
  | nil => exact h
  | cons a as ih =>
      rcases hRoom with ⟨hFirst, hRoom⟩
      rcases hSteady with ⟨hLater, hSteady⟩
      exact
        ih (h.perform hAloof hFirst hLater).1 hRoom hSteady

end Desk

end OrderWatch
