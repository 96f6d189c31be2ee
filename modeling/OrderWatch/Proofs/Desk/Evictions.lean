import OrderWatch.Proofs.Cache.Stored
import OrderWatch.Proofs.Desk.Fills
import OrderWatch.Proofs.Desk.Ledger
import OrderWatch.Proofs.Desk.Records

/-
  Where retired orders have gone from the cache.

  An order that is retired under a name without an entry
  comes into the cache, and it goes out when there is no room
  for it, when it is purged, or when a look-up meets it after
  it has expired.  The counter of evictions is moved in the
  first two cases, and not in the third.

  Main declarations:
    * `entered`, `reclaimed`
    * `Tracker.Balances`, `Tracker.balances_after`
    * `Desk.balances_attendAll`
    * `Tracker.CountsEvictions`
    * `Desk.evictions_counted_iff`
-/

namespace OrderWatch

------------------------------------------------------------
-- Books
------------------------------------------------------------

theorem Book.lasting_whole :
    Lasting Whole where
  start := id
  write := fun hWhole => whole_write hWhole _
  stop := fun hWhole => whole_stop hWhole _ _
  findRetired := fun hWhole => whole_findRetired hWhole _ _
  purge := fun hWhole => whole_purge hWhole _

/- A record that is written has its place already. -/
theorem Book.stored_write
    (b : Book)
    (o : Order) :
    (b.write o).retired.stored = b.retired.stored := by
  unfold write
  split
  · rfl
  · exact b.retired.stored_modify o.id fun _ => o

------------------------------------------------------------
-- What comes in and what goes out
------------------------------------------------------------

namespace Happening

/- An order has come into the cache under a new name. -/
def isEntry : Happening → Bool
  | .retired _ anew _ => anew
  | _ => false

/- A look-up has dropped an expired order. -/
def isReclaim : Happening → Bool
  | .reclaimed _ => true
  | _ => false

end Happening

/- How many orders have come in. -/
def entered (xs : List Happening) : Nat :=
  xs.countP Happening.isEntry

/- How many orders look-ups have dropped. -/
def reclaimed (xs : List Happening) : Nat :=
  xs.countP Happening.isReclaim

/- Evictions are counted as orders are put or purged. -/
theorem moved_answered
    (channel : Channel)
    (v : Verdict) :
    moved [.answered channel v] .cacheEvictions = 0 := by
  rw [moved_singleton, List.count_eq_zero]
  cases v with
  | ignored why =>
      cases why <;>
        simp [Happening.moves, Verdict.moves, Dismissal.counter]
  | applied events => simp [Happening.moves, Verdict.moves]
  | unchanged => simp [Happening.moves, Verdict.moves]
  | broken why => simp [Happening.moves, Verdict.moves]

theorem moved_retired
    (id : OrderId)
    (anew : Bool)
    (dropped : Nat) :
    moved [.retired id anew dropped] .cacheEvictions =
      dropped := by
  rw [moved_singleton]
  exact List.count_replicate_self

theorem moved_purged
    (dropped : Nat) :
    moved [.purged dropped] .cacheEvictions = dropped := by
  rw [moved_singleton]
  exact List.count_replicate_self

theorem moved_called
    (topic : Topic)
    (ending : Ending) :
    moved [.called topic ending] .cacheEvictions = 0 := by
  cases ending <;> rfl

namespace Tracker

variable {t t' : Tracker}

/-
  The cache has as many orders more as have come in, less
  those that have been evicted or reclaimed.
-/
structure Balances
    (t : Tracker)
    (xs : List Happening)
    (t' : Tracker) : Prop where
  whole : t'.book.Whole
  stored_eq :
    t'.book.retired.stored + moved xs .cacheEvictions
        + reclaimed xs =
      t.book.retired.stored + entered xs

theorem Balances.append
    {t'' : Tracker}
    {xs ys : List Happening}
    (hFirst : t.Balances xs t')
    (hSecond : t'.Balances ys t'') :
    t.Balances (xs ++ ys) t'' where
  whole := hSecond.whole
  stored_eq := by
    have hBefore := hFirst.stored_eq
    have hAfter := hSecond.stored_eq
    unfold reclaimed entered at *
    rw [moved_append, List.countP_append, List.countP_append]
    omega

/- A look-up among the retired orders, and what happens. -/
theorem balances_findRetired
    (hWhole : t.book.Whole)
    (id : OrderId) :
    t.Balances (t.reclaims id) (t.fetchRetired id).1 where
  whole := Book.whole_findRetired hWhole t.now id
  stored_eq := by
    have hStored :
        (t.fetchRetired id).1.book.retired.stored +
            (if t.book.retired.index[id]?.any
                (t.book.retired.isExpired t.now) then
              1
            else
              0) =
          t.book.retired.stored :=
      Cache.Whole.stored_get hWhole t.now id
    unfold reclaims
    by_cases hExpired :
        t.book.retired.index[id]?.any
          (t.book.retired.isExpired t.now) = true
    · rw [if_pos hExpired] at hStored ⊢
      exact hStored
    · rw [if_neg hExpired] at hStored ⊢
      exact hStored

theorem balances_find
    (hWhole : t.book.Whole)
    (id : OrderId) :
    t.Balances (t.looksUp id) (t.fetch id).1 := by
  unfold looksUp
  rw [Book.isActive_eq]
  cases hActive : t.book.active[id]? with
  | some o =>
      have hSame : (t.fetch id).1 = t := by
        unfold fetch
        rw [Book.find_of_active hActive]
      rw [hSame]
      exact ⟨hWhole, rfl⟩
  | none =>
      have hSame : (t.fetch id).1 = (t.fetchRetired id).1 := by
        unfold fetch
        rw [Book.find_of_retired hActive]
        rfl
      rw [hSame]
      exact balances_findRetired hWhole id

/- Every step balances. -/
theorem balances_after
    (hWhole : t.book.Whole)
    (a : Deed) :
    t.Balances (t.happens a) (t.after a) := by
  have hKept : (t.after a).book.Whole :=
    steady_after Book.lasting_whole.steady hWhole
      fun _ _ => hWhole
  cases a with
  | start o => exact ⟨hKept, rfl⟩
  | advance nanos => exact ⟨hKept, rfl⟩
  | fetch id => exact balances_find hWhole id
  | fetchRetired id => exact balances_findRetired hWhole id
  | receive u =>
      have hWritten :
          (t.receive u).1.book.retired.stored =
            (t.fetch u.orderId).1.book.retired.stored := by
        cases hFound : (t.book.find t.now u.orderId).2 with
        | none =>
            rw [book_of_core (receive_unknown hFound).1]
            rfl
        | some o =>
            rw [book_of_core (receive_known hFound).1]
            exact Book.stored_write _ _
      refine
        (balances_find hWhole u.orderId).append ⟨hKept, ?_⟩
      simp only [after]
      rw [hWritten, moved_answered]
      rfl
  | stop id =>
      refine ⟨hKept, ?_⟩
      simp only [after, happens]
      rw [book_of_core (core_stop t id).1]
      cases hActive : t.book.active[id]? with
      | none =>
          rw [Book.stop_of_inactive hActive]
          rfl
      | some o =>
          have hPut :=
            Cache.Whole.stored_put hWhole t.now id o
          rw [Book.stop_of_active hActive]
          simp only [moved_retired]
          cases hAnew : t.book.retired.index.contains id with
          | true =>
              rw [hAnew] at hPut
              exact hPut
          | false =>
              rw [hAnew] at hPut
              exact hPut
  | purge =>
      refine ⟨hKept, ?_⟩
      simp only [after, happens]
      rw [book_of_core (core_purge t).1, moved_purged]
      exact Cache.Whole.stored_purge hWhole t.now

/- So does everything else, if the books are whole. -/
theorem audit_balances :
    Audit fun t xs t' => t.book.Whole → t.Balances xs t' where
  still := fun _ hWhole => ⟨hWhole, rfl⟩
  append := by
    intro t t' t'' xs ys hFirst hSecond hWhole
    have hBefore := hFirst hWhole
    exact hBefore.append (hSecond hBefore.whole)
  said := fun _ _ _ _ hWhole => ⟨hWhole, rfl⟩
  step := fun _ a hWhole => balances_after hWhole a
  ended := fun _ _ hWhole => ⟨hWhole, rfl⟩
  failed := by
    intro t topic ending _ hWhole
    refine ⟨hWhole, ?_⟩
    rw [moved_called]
    rfl

end Tracker

------------------------------------------------------------
-- Runs
------------------------------------------------------------

variable {L μ : Type}

namespace Desk

/- What happens in a run balances. -/
theorem balances_attendAll
    (plan : L → Event → Plan L μ)
    (depth : Nat)
    {d : Desk L μ}
    (hWhole : d.tracker.book.Whole)
    (es : List (Errand L)) :
    let hear := Hearing.planned plan depth
    let tells := Hearing.tells plan depth
    d.tracker.Balances (d.happenings hear tells es)
      (d.attendAll hear es).tracker :=
  audit_attendAll Tracker.audit_balances
    (audited_planned Tracker.audit_balances plan depth) d es
    hWhole

end Desk

/-
  Every order that has come into the cache is still stored
  there, or has been counted as evicted.
-/
def Tracker.CountsEvictions
    (t : Tracker)
    (xs : List Happening) : Prop :=
  entered xs =
    t.book.retired.stored + t.journal.total .cacheEvictions

instance
    (t : Tracker)
    (xs : List Happening) :
    Decidable (t.CountsEvictions xs) :=
  inferInstanceAs (Decidable (_ = _))

/- No look-up has dropped an order. -/
theorem reclaimed_eq_zero_iff
    (xs : List Happening) :
    reclaimed xs = 0 ↔ ∀ id, .reclaimed id ∉ xs := by
  unfold reclaimed
  rw [List.countP_eq_zero]
  constructor
  · intro hNone id hMem
    exact hNone _ hMem rfl
  · intro hNone x hMem hReclaim
    cases x with
    | reclaimed id => exact hNone id hMem
    | _ => contradiction

/-
  A desk is opened, and whatever is done to it by its users
  and by its listeners, an order that has come into the cache
  is stored there, or has been counted as evicted, or has
  been dropped by a look-up.  The last is not counted; so
  evictions are counted right exactly until a look-up meets
  an order that has expired.
-/
theorem Desk.evictions_counted_iff
    (plan : L → Event → Plan L μ)
    (depth : Nat)
    (policy : TerminalPolicy)
    (capacity ttl : Nat)
    (clock : Time.Clock)
    (sink : Sink L)
    (memory : μ)
    (es : List (Errand L)) :
    let hear := Hearing.planned plan depth
    let tells := Hearing.tells plan depth
    let d : Desk L μ :=
      opening policy capacity ttl clock sink memory
    let t := (d.attendAll hear es).tracker
    let xs := d.happenings hear tells es
    entered xs =
        t.book.retired.stored + t.journal.total .cacheEvictions
          + reclaimed xs ∧
      (t.CountsEvictions xs ↔ ∀ id, .reclaimed id ∉ xs) := by
  intro hear tells d t xs
  have hBalance : t.book.retired.stored
      + moved xs .cacheEvictions + reclaimed xs =
        0 + entered xs :=
    (balances_attendAll plan depth
      (Book.whole_empty capacity ttl) es).stored_eq
  have hTotal :
      t.journal.total .cacheEvictions =
        0 + moved xs .cacheEvictions :=
    total_attendAll plan depth d es .cacheEvictions
  rw [← reclaimed_eq_zero_iff]
  unfold Tracker.CountsEvictions
  omega

/-
  Room for one order: it is stopped, expires, and is looked
  up.  It has come in and is not stored, and is not counted.
-/
theorem Desk.not_evictions_counted_fetched :
    let plan : Unit → Event → Plan Unit Unit :=
      fun _ _ => .finish .done
    let hear := Hearing.planned plan 0
    let tells := Hearing.tells plan 0
    let es : List (Errand Unit) :=
      [.act (.start (.ofRequest Order.sampleRequest)),
        .act (.stop "a"), .act (.advance 10), .act (.fetch "a")]
    let t := (smallDesk.attendAll hear es).tracker
    let xs := smallDesk.happenings hear tells es
    xs = [.retired "a" true 0, .reclaimed "a"] ∧
      t.book.retired.stored = 0 ∧
      t.journal.total .cacheEvictions = 0 ∧
      ¬ t.CountsEvictions xs := by
  refine ⟨?_, ?_, ?_, ?_⟩ <;> decide +kernel

end OrderWatch
