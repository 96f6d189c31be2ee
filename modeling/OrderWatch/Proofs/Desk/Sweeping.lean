import OrderWatch.Proofs.Cache.Living
import OrderWatch.Proofs.Desk.Redelivery

/-
  Purges are not noticed.

  Expired orders that have not been purged still take up room
  in the cache and lie in both of its chains, so an order may
  be retired into an old slot or into a new one, and may push
  out expired orders or none.  Yet the living orders and the
  way they were last used are the same after all, and nobody
  but the one who purges can tell when this was done, or
  whether.

  Main declarations:
    * `Cache.simulation_alike`
    * `Desk.Related.purgeLeft`, `Desk.Related.purgeRight`
    * `Desk.noticed`
    * `Desk.Related.run`
    * `Desk.purges_unnoticed`
-/

namespace OrderWatch

/- Caches with the same living entries are used alike. -/
theorem Cache.simulation_alike :
    Cache.Simulation (fun _ => True) Cache.Alike where
  whole := fun h => ⟨h.timely.whole, h.timely'.whole⟩
  live := by
    intro c d now h k
    rw [h.live?_eq]
  later := fun h hLater => h.later hLater
  get := fun h k => h.get k
  modify := fun h k f => h.modify k f
  put := fun h k o _ => h.put k o

variable {L μ : Type}

namespace Desk

variable {hear : Hearing L μ} {d d' : Desk L μ}

------------------------------------------------------------
-- Purges
------------------------------------------------------------

/- A purge does something to the cache only. -/
theorem perform_of_purges
    (hear : Hearing L μ)
    (d : Desk L μ)
    {a : Action}
    (hPurges : a.purges = true) :
    (d.perform hear a).1.tracker.core =
        { d.tracker.core with
          book := (d.tracker.book.purge d.tracker.now).1 } ∧
      d.SameAround (d.perform hear a).1 := by
  cases a with
  | purge =>
      have hCore := d.tracker.core_purge.1
      exact ⟨hCore, ⟨rfl, rfl⟩, Tracker.clock_of_core hCore⟩
  | sweep =>
      have hCore := d.tracker.core_sweep
      exact ⟨hCore, ⟨rfl, rfl⟩, Tracker.clock_of_core hCore⟩
  | _ => contradiction

namespace Related

/- One of two desks is purged. -/
theorem purgeLeft
    (h : Related Cache.Alike d d')
    {a : Action}
    (hPurges : a.purges = true) :
    Related Cache.Alike (d.perform hear a).1 d' := by
  rcases perform_of_purges hear d hPurges with ⟨hCore, hAround⟩
  have hBook :
      Book.Related Cache.Alike
        (d.tracker.book.purge d.tracker.now).1
        d'.tracker.book d.tracker.now :=
    ⟨h.book.active_eq, h.book.retired.purgeLeft⟩
  exact
    of_core hCore rfl h.policy_eq hBook
      (hAround.symm.trans h.around)

theorem purgeRight
    (h : Related Cache.Alike d d')
    {a : Action}
    (hPurges : a.purges = true) :
    Related Cache.Alike d (d'.perform hear a).1 := by
  rcases perform_of_purges hear d' hPurges with
    ⟨hCore, hAround⟩
  rw [h.now_eq] at hCore
  have hBook :
      Book.Related Cache.Alike d.tracker.book
        (d'.tracker.book.purge d.tracker.now).1
        d.tracker.now :=
    ⟨h.book.active_eq, h.book.retired.purgeRight⟩
  exact
    of_core rfl hCore h.policy_eq hBook
      (h.around.trans hAround)

end Related

------------------------------------------------------------
-- Runs
------------------------------------------------------------

/- The actions of a run but the purges, with their answers. -/
def noticed
    (hear : Hearing L μ)
    (d : Desk L μ)
    (as : List Action) : List (Action × Answer) :=
  (as.zip (d.run hear as).2).filter fun e => !e.1.purges

theorem noticed_cons
    (hear : Hearing L μ)
    (d : Desk L μ)
    (a : Action)
    (as : List Action) :
    d.noticed hear (a :: as) =
      if a.purges then
        (d.perform hear a).1.noticed hear as
      else
        (a, (d.perform hear a).2) ::
          (d.perform hear a).1.noticed hear as := by
  simp only [noticed, run, List.zip_cons_cons,
    List.filter_cons]
  cases a.purges <;> rfl

theorem noticed_append
    (hear : Hearing L μ)
    (d : Desk L μ)
    (as bs : List Action) :
    d.noticed hear (as ++ bs) =
      d.noticed hear as ++
        (d.run hear as).1.noticed hear bs := by
  induction as generalizing d with
  | nil => rfl
  | cons a as ih =>
      rw [List.cons_append, noticed_cons, noticed_cons, ih]
      split <;> rfl

/- Purges alone are not noticed. -/
theorem Related.run_purges
    (hear : Hearing L μ)
    (h : Related Cache.Alike d d')
    {bs : List Action}
    (hPurges : ∀ b ∈ bs, b.purges = true) :
    d'.noticed hear bs = [] ∧
      Related Cache.Alike d (d'.run hear bs).1 := by
  induction bs generalizing d' with
  | nil => exact ⟨rfl, h⟩
  | cons b bs ih =>
      have hFirst := hPurges b (by simp)
      have hNext : Related Cache.Alike d (d'.perform hear b).1 :=
        h.purgeRight hFirst
      rw [noticed_cons, if_pos hFirst]
      exact ih hNext (fun b hMem => hPurges b (by simp [hMem]))

/- Both desks do the same actions, and purge at will. -/
theorem Related.run
    (hDetached : hear.Detached)
    (h : Related Cache.Alike d d')
    {as bs : List Action}
    (hSame :
      (as.filter fun a => !a.purges) =
        bs.filter fun b => !b.purges)
    (hSteady : Steady hear d as) :
    d.noticed hear as = d'.noticed hear bs ∧
      Related Cache.Alike (d.run hear as).1
        (d'.run hear bs).1 := by
  induction as generalizing bs d d' with
  | nil =>
      have hPurges : ∀ b ∈ bs, b.purges = true := by
        simpa [List.filter_eq_nil_iff] using hSame.symm
      rcases h.run_purges hear hPurges with ⟨hNone, hLast⟩
      exact ⟨hNone.symm, hLast⟩
  | cons a as ih =>
      rcases hSteady with ⟨hLater, hSteady⟩
      cases hPurges : a.purges with
      | true =>
          rw [List.filter_cons_of_neg (by simp [hPurges])]
            at hSame
          rw [noticed_cons, if_pos hPurges]
          exact ih (h.purgeLeft hPurges) hSame hSteady
      | false =>
          rw [List.filter_cons_of_pos (by simp [hPurges])]
            at hSame
          -- The other desk may purge before it does the same.
          rcases List.filter_eq_cons_iff.mp hSame.symm with
            ⟨cs, bs, rfl, hBefore, _, hRest⟩
          have hPurges' : ∀ c ∈ cs, c.purges = true := by
            simpa using hBefore
          rcases h.run_purges hear hPurges' with
            ⟨hNone, hReady⟩
          rcases hReady.perform Cache.simulation_alike hDetached
              hPurges trivial hLater with ⟨hNext, hAnswer⟩
          rcases ih hNext hRest.symm hSteady with
            ⟨hNoticed, hLast⟩
          constructor
          · rw [noticed_append, hNone, List.nil_append,
              noticed_cons, noticed_cons, hAnswer, hNoticed]
          · rw [run_append]
            exact hLast

theorem related_opening
    (policy : TerminalPolicy)
    (capacity ttl : Nat)
    (clock : Time.Clock)
    (sink : Sink L)
    (memory : μ) :
    Related Cache.Alike
      (opening policy capacity ttl clock sink memory)
      (opening policy capacity ttl clock sink memory) where
  policy_eq := rfl
  around := .refl _
  book := ⟨rfl, Cache.Alike.empty capacity ttl clock.elapsed⟩

/-
  Purges may be put in and left out anywhere.  If two runs
  are the same but for these, then everything else is
  answered alike in both, whatever the capacity and the time
  to live, and the desks look alike in the end.
-/
theorem purges_unnoticed
    (hDetached : hear.Detached)
    (policy : TerminalPolicy)
    (capacity ttl : Nat)
    (clock : Time.Clock)
    (sink : Sink L)
    (memory : μ)
    (as bs : List Action)
    (hSame :
      (as.filter fun a => !a.purges) =
        bs.filter fun b => !b.purges) :
    let d : Desk L μ :=
      opening policy capacity ttl clock sink memory
    Steady hear d as →
    d.noticed hear as = d.noticed hear bs ∧
      (d.run hear as).1.LooksLike (d.run hear bs).1 := by
  intro d hSteady
  have hOpening : Related Cache.Alike d d :=
    related_opening policy capacity ttl clock sink memory
  rcases hOpening.run hDetached hSame hSteady with
    ⟨hNoticed, hLast⟩
  exact ⟨hNoticed, hLast.looksLike Cache.simulation_alike⟩

/-
  An order expires and is started and cancelled once more.
  Without the purge, which drops it, it is retired again into
  the slot in which it has lain all the time.
-/
theorem purges_unnoticed_restarted :
    let start :=
      Action.start
        (.ofRequest { (default : OrderRequest) with id := "a" })
    let before := [start, .update cancellation, .advance 1]
    let after :=
      [start, .update cancellation, .fetchRetired "a"]
    let d := (brief.run Hearing.idle before).1
    d.tracker.purge.2 = 1 ∧
      d.tracker.book.retired.stored = 1 ∧
      brief.noticed Hearing.idle (before ++ .purge :: after) =
        brief.noticed Hearing.idle (before ++ after) := by
  intro start before after d
  have hSteady :
      Steady Hearing.idle brief (before ++ .purge :: after) := by
    refine ⟨?_, ?_, ?_, ?_, ?_, ?_, ?_, trivial⟩ <;>
      decide +kernel
  have hUnnoticed :=
    purges_unnoticed Hearing.aloof_idle.detached .once 1 1
      default .silent () (before ++ .purge :: after)
      (before ++ after) rfl hSteady
  exact
    ⟨by decide +kernel, by decide +kernel, hUnnoticed.1⟩

end Desk

end OrderWatch
