import OrderWatch.Proofs.Desk.Loss
import OrderWatch.Proofs.Desk.Records

/-
  Orders go by age only.

  In a run that pushes nothing out of the cache, a name whose
  records are all gone has had a retired one that is too old
  by now.

  Main declarations:
    * `Book.Expired`
    * `Book.expired_of_find`, `Book.expired_of_purge`
    * `Desk.expired_of_perform`
    * `Desk.Lapsed`, `Desk.lapsed_of_run`
-/

namespace OrderWatch

------------------------------------------------------------
-- Books
------------------------------------------------------------

namespace Book

variable {b : Book} {id : OrderId} {now : Nat}

/- The retired order of a name has expired. -/
def Expired (b : Book) (now : Nat) (id : OrderId) : Prop :=
  ∃ e, b.retired.found? id = some e ∧
    b.retired.isLive now e = false

/- An order that has expired stays so. -/
theorem Expired.later
    {last : Nat}
    (hExpired : b.Expired last id)
    (hLater : last ≤ now) :
    b.Expired now id := by
  rcases hExpired with ⟨e, hFound, hDead⟩
  refine ⟨e, hFound, ?_⟩
  rw [← Bool.not_eq_true] at hDead ⊢
  intro hLive
  exact hDead (Cache.isLive_of_later hLater hLive)

/- Where only dead entries go, only expired orders go. -/
theorem expired_of_retired
    (retired : Cache OrderId Order)
    (hDead :
      ∀ e, b.retired.found? id = some e →
        retired.found? id = none →
        b.retired.isLive now e = false)
    (hBefore : b.latest? id ≠ none)
    (hAfter : { b with retired }.latest? id = none) :
    b.Expired now id := by
  unfold latest? at hBefore hAfter
  rw [Option.or_eq_none_iff] at hAfter
  rw [hAfter.1, Option.none_or] at hBefore
  unfold Cache.kept? at hBefore hAfter
  rw [Option.map_eq_none_iff] at hAfter
  cases hFound : b.retired.found? id with
  | none =>
      rw [hFound] at hBefore
      exact absurd rfl hBefore
  | some e => exact ⟨e, hFound, hDead e hFound hAfter.2⟩

/- Looking a name up drops the order only if it expired. -/
theorem expired_of_findRetired
    (hWhole : b.Whole)
    {k : OrderId}
    (hBefore : b.latest? id ≠ none)
    (hAfter : (b.findRetired now k).1.latest? id = none) :
    b.Expired now id := by
  refine
    expired_of_retired (b.retired.get now k).1 ?_ hBefore hAfter
  intro e hFound hNone
  rw [Cache.found?_get hWhole] at hNone
  by_cases hSame : id = k
  · rw [if_pos hSame, ← hSame, Option.map_eq_none_iff,
      Cache.live?_eq_filter, Option.filter_eq_none_iff]
      at hNone
    simpa using hNone e hFound
  · rw [if_neg hSame, hFound] at hNone
    contradiction

theorem expired_of_find
    (hWhole : b.Whole)
    {k : OrderId}
    (hBefore : b.latest? id ≠ none)
    (hAfter : (b.find now k).1.latest? id = none) :
    b.Expired now id := by
  cases hActive : b.active[k]? with
  | some o =>
      rw [find_of_active hActive] at hAfter
      exact absurd hAfter hBefore
  | none =>
      rw [find_of_retired hActive] at hAfter
      exact expired_of_findRetired hWhole hBefore hAfter

/- A name on record is found unless its order has expired. -/
theorem expired_of_unfound
    (hLatest : b.latest? id ≠ none)
    (hNone : (b.find now id).2 = none) :
    b.Expired now id := by
  cases hActive : b.active[id]? with
  | some o =>
      rw [find_of_active hActive] at hNone
      contradiction
  | none =>
      rw [find_of_retired hActive] at hNone
      change (b.retired.get now id).2 = none at hNone
      rw [latest?_of_retired hActive] at hLatest
      rw [Cache.get_answer, Option.map_eq_none_iff,
        Cache.live?_eq_filter] at hNone
      unfold Cache.kept? at hLatest
      cases hFound : b.retired.found? id with
      | none =>
          rw [hFound] at hLatest
          exact absurd rfl hLatest
      | some e =>
          rw [Option.filter_eq_none_iff] at hNone
          exact ⟨e, hFound, by simpa using hNone e hFound⟩

/- A purge drops the order of a name only if it expired. -/
theorem expired_of_purge
    (hTimely : b.retired.Timely now)
    (hBefore : b.latest? id ≠ none)
    (hAfter : (b.purge now).1.latest? id = none) :
    b.Expired now id := by
  refine
    expired_of_retired (b.retired.purge now).1 ?_ hBefore hAfter
  intro e hFound hNone
  rw [Cache.found?_purge hTimely,
    Option.filter_eq_none_iff] at hNone
  simpa using hNone e hFound

/- With room an order that is stopped keeps its record. -/
theorem latest?_stop
    (hTimely : b.retired.Timely now)
    {k : OrderId}
    (hRoom : (b.stop now k).2.getD 0 = 0)
    (id : OrderId) :
    (b.stop now k).1.latest? id = b.latest? id := by
  cases hActive : b.active[k]? with
  | none => rw [stop_of_inactive hActive]
  | some o =>
      rw [stop_of_active hActive] at hRoom ⊢
      unfold latest? Cache.kept?
      rw [Cache.found?_put hTimely.whole now k o
        (hTimely.whole.room_of_put hRoom)]
      simp only [Std.ExtTreeMap.getElem?_erase]
      by_cases hSame : id = k
      · simp [hSame, hActive]
      · simp [hSame, Ne.symm hSame]

end Book

------------------------------------------------------------
-- Desks
------------------------------------------------------------

variable {L μ : Type}

namespace Desk

variable {hear : Hearing L μ} {d : Desk L μ}

/-
  A name that an update has found keeps the response as its
  latest record; other names keep theirs as far as the
  look-up does.
-/
theorem latest?_process_still
    (hStill : hear.Still)
    (h : d.Forgets d)
    {u : Update}
    {o : Order}
    (hId : o.id = u.orderId)
    (hFound :
      (d.tracker.book.find d.tracker.now u.orderId).2 =
        some o)
    (hRoom : d.displaced hear (.update u) = 0)
    (id : OrderId) :
    (d.process hear u).1.tracker.book.latest? id =
      if id = u.orderId then
        some
          (o.respond u d.tracker.clock.now d.tracker.policy).1
      else
        (d.tracker.book.find d.tracker.now
          u.orderId).1.latest? id := by
  have hWhole := h.book.retired.timely.whole
  have hCore := (process_still hStill hFound).2
  rw [displaced_known hStill hFound] at hRoom
  rw [Tracker.book_of_core hCore]
  have hResponseId :
      (o.respond u d.tracker.clock.now
        d.tracker.policy).1.id = u.orderId :=
    (o.id_respond u _ _).trans hId
  generalize
    o.respond u d.tracker.clock.now d.tracker.policy =
      response at hRoom hResponseId ⊢
  have hWritten :=
    Book.latest?_write
      (Book.whole_find hWhole d.tracker.now u.orderId)
      hResponseId (Book.latest?_of_find hWhole hFound).2 id
  have hTimely :=
    ((h.book.find u.orderId).1.write response.1).retired.timely
  rw [← hWritten]
  cases hRetire : response.2.retire with
  | false => rfl
  | true =>
      rw [hRetire, if_pos rfl] at hRoom
      exact Book.latest?_stop hTimely hRoom id

/- An action lets go of the records of a name only by age. -/
theorem expired_of_perform
    (hStill : hear.Still)
    (h : d.Forgets d)
    (hOwn : d.tracker.book.All Order.Own)
    {a : Action}
    (hRoom : d.displaced hear a = 0)
    {id : OrderId}
    (hBefore : d.tracker.book.latest? id ≠ none)
    (hAfter :
      (d.perform hear a).1.tracker.book.latest? id = none) :
    d.tracker.book.Expired d.tracker.now id := by
  have hWhole := hOwn.whole
  cases a with
  | start o =>
      have hStarted :=
        Book.latest?_start d.tracker.book o id
      change (d.tracker.book.start o).latest? id = none at hAfter
      rw [hAfter] at hStarted
      split at hStarted
      · contradiction
      · exact absurd hStarted.symm hBefore
  | update u =>
      change
        (d.process hear u).1.tracker.book.latest? id = none
          at hAfter
      cases hFound :
          (d.tracker.book.find d.tracker.now u.orderId).2 with
      | none =>
          have hCore := (process_unknown hear hFound).1
          rw [Tracker.book_of_core hCore] at hAfter
          exact Book.expired_of_find hWhole hBefore hAfter
      | some o =>
          rw [latest?_process_still hStill h
            (hOwn.of_find hFound) hFound hRoom] at hAfter
          split at hAfter
          · contradiction
          · exact Book.expired_of_find hWhole hBefore hAfter
  | stop k =>
      have hCore := (d.tracker.core_stop k).1
      change
        (d.tracker.stop k).1.book.latest? id = none at hAfter
      rw [Tracker.book_of_core hCore,
        Book.latest?_stop h.book.retired.timely hRoom] at hAfter
      exact absurd hAfter hBefore
  | fetch k => exact Book.expired_of_find hWhole hBefore hAfter
  | fetchRetired k =>
      exact Book.expired_of_findRetired hWhole hBefore hAfter
  | purge =>
      have hCore := d.tracker.core_purge.1
      change d.tracker.purge.1.book.latest? id = none at hAfter
      rw [Tracker.book_of_core hCore] at hAfter
      exact
        Book.expired_of_purge h.book.retired.timely hBefore hAfter
  | sweep =>
      have hCore := d.tracker.core_sweep
      change d.tracker.sweep.book.latest? id = none at hAfter
      rw [Tracker.book_of_core hCore] at hAfter
      exact
        Book.expired_of_purge h.book.retired.timely hBefore hAfter
  | _ => exact absurd hAfter hBefore

------------------------------------------------------------
-- Runs
------------------------------------------------------------

/- A name has had a retired order, too old by the end. -/
def Lapsed
    (hear : Hearing L μ)
    (d : Desk L μ)
    (as : List Action)
    (id : OrderId) : Prop :=
  ∃ earlier later, as = earlier ++ later ∧
    (d.run hear earlier).1.tracker.book.Expired
      (d.run hear as).1.tracker.now id

theorem Lapsed.prepend
    (as : List Action)
    {bs : List Action}
    {id : OrderId}
    (hLapsed : Lapsed hear (d.run hear as).1 bs id) :
    Lapsed hear d (as ++ bs) id := by
  rcases hLapsed with ⟨earlier, later, rfl, hExpired⟩
  refine ⟨as ++ earlier, later, by rw [List.append_assoc], ?_⟩
  rw [run_append, run_append]
  exact hExpired

/- In a run with room a name is kept until it lapses. -/
theorem lapsed_of_run
    (hAloof : hear.Aloof)
    (h : d.Forgets d)
    (hOwn : d.tracker.book.All Order.Own)
    {as : List Action}
    (hRoom : Roomy hear d as)
    (hSteady : Steady hear d as)
    {id : OrderId}
    (hBefore : d.tracker.book.latest? id ≠ none)
    (hAfter :
      (d.run hear as).1.tracker.book.latest? id = none) :
    Lapsed hear d as id := by
  induction as generalizing d with
  | nil => exact absurd hAfter hBefore
  | cons a as ih =>
      have hTime := now_le_run hSteady
      rcases hRoom with ⟨hFirst, hRoom⟩
      rcases hSteady with ⟨hNow, hSteady⟩
      by_cases hNext :
          (d.perform hear a).1.tracker.book.latest? id = none
      · have hExpired :=
          expired_of_perform hAloof.still h hOwn hFirst hBefore
            hNext
        exact ⟨[], a :: as, rfl, hExpired.later hTime⟩
      · have hOwn' :=
          all_perform hAloof.still.quiet (a := a)
            (by intro o u time policy _; rfl) hOwn
            (by intro o _; rfl)
        have hLapsed :=
          ih (h.perform hAloof hFirst hNow).1 hOwn' hRoom hSteady
            hNext hAfter
        exact hLapsed.prepend [a]

end Desk

end OrderWatch
