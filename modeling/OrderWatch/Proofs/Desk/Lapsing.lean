import OrderWatch.Proofs.Book.Places
import OrderWatch.Proofs.Book.Simulation
import OrderWatch.Proofs.Desk.Deeds
import OrderWatch.Proofs.Desk.Fills
import OrderWatch.Proofs.Desk.Redelivery

/-
  Retired orders lapse for good.

  When an order is retired, its entry in the cache gets the
  time of that moment.  Nothing that is done afterwards, by a
  caller or by a listener, gives the entry another time or
  makes the order active, unless it is started again: late
  updates change the record where it lies, and retire an
  order only if it is active.  So once the order has been
  retired for as long as an order lives, it is not found in
  any way.

  Main declarations:
    * `Book.RetiredBy`, `Book.RetiredBy.place_eq`
    * `Book.retiredBy_stop`
    * `Book.steady_retiredBy`
    * `Desk.Lacks`, `Desk.lacks_of_place`
    * `Desk.retired_lapses`
-/

namespace OrderWatch

------------------------------------------------------------
-- Books
------------------------------------------------------------

namespace Book

/-
  An order is not active, and if it lies in the cache, it was
  put there by some time.
-/
structure RetiredBy
    (since : Nat)
    (id : OrderId)
    (b : Book) : Prop where
  whole : b.Whole
  inactive : b.active[id]? = none
  put :
    ∀ e, b.retired.found? id = some e → e.insertedAt ≤ since

variable {b : Book} {id k : OrderId} {o : Order}
variable {since now : Nat}

/- An order is retired now. -/
theorem retiredBy_stop
    (hWhole : b.Whole)
    (hActive : b.active[id]? = some o)
    (now : Nat) :
    (b.stop now id).1.RetiredBy now id where
  whole := whole_stop hWhole now id
  inactive := by
    rw [active_stop, if_pos rfl]
  put := by
    intro e hFound
    rw [stop_of_active hActive] at hFound
    rcases Cache.found?_put_or_none hWhole now id o id with
      hNone | hPut
    · rw [hNone] at hFound
      contradiction
    · rw [hPut, if_pos rfl] at hFound
      rw [← Option.some.inj hFound]

namespace RetiredBy

/- Entries that only go leave nothing newer behind. -/
theorem sheds
    (h : b.RetiredBy since id)
    {retired : Cache OrderId Order}
    (hWhole : retired.Whole)
    (hSheds : b.retired.Sheds retired) :
    { b with retired }.RetiredBy since id where
  whole := hWhole
  inactive := h.inactive
  put := by
    intro e hFound
    rcases hSheds id with hNone | hSame
    · rw [hNone] at hFound
      contradiction
    · rw [hSame] at hFound
      exact h.put e hFound

theorem purge
    (h : b.RetiredBy since id)
    (now : Nat) :
    (b.purge now).1.RetiredBy since id :=
  h.sheds (whole_purge h.whole now)
    (Cache.sheds_purge h.whole now)

/- To start another order is no matter. -/
theorem start
    (h : b.RetiredBy since id)
    (hOther : o.id ≠ id) :
    (b.start o).RetiredBy since id where
  whole := h.whole
  inactive := by
    unfold Book.start
    rw [getElem?_insert, if_neg (Ne.symm hOther)]
    exact h.inactive
  put := h.put

/- A look-up moves the time of use, and not that of the put. -/
theorem findRetired
    (h : b.RetiredBy since id)
    (now : Nat)
    (k : OrderId) :
    (b.findRetired now k).1.RetiredBy since id where
  whole := whole_findRetired h.whole now k
  inactive := h.inactive
  put := by
    intro e hFound
    change (b.retired.get now k).1.found? id = some e at hFound
    rw [Cache.found?_get h.whole] at hFound
    by_cases hSame : id = k
    · rw [if_pos hSame, ← hSame] at hFound
      rcases Option.map_eq_some_iff.mp hFound with
        ⟨f, hLive, hUsed⟩
      rw [Cache.live?_eq_filter,
        Option.filter_eq_some_iff] at hLive
      rw [← hUsed]
      exact h.put f hLive.1
    · rw [if_neg hSame] at hFound
      exact h.put e hFound

/- A record is changed where it lies. -/
theorem write
    (h : b.RetiredBy since id)
    (o : Order) :
    (b.write o).RetiredBy since id where
  whole := whole_write h.whole o
  inactive := by
    rw [active_write, h.inactive]
    split <;> rfl
  put := by
    intro e hFound
    cases hActive : b.active[o.id]? with
    | some p =>
        rw [write_of_active hActive] at hFound
        exact h.put e hFound
    | none =>
        rw [write_of_retired hActive,
          Cache.found?_modify h.whole] at hFound
        by_cases hSame : id = o.id
        · rw [if_pos hSame, ← hSame] at hFound
          rcases Option.map_eq_some_iff.mp hFound with
            ⟨f, hBefore, hChanged⟩
          rw [← hChanged]
          exact h.put f hBefore
        · rw [if_neg hSame] at hFound
          exact h.put e hFound

/-
  To stop an order that is not active does nothing, and to
  stop another one only makes room for it.
-/
theorem stop
    (h : b.RetiredBy since id)
    (now : Nat)
    (k : OrderId) :
    (b.stop now k).1.RetiredBy since id := by
  cases hActive : b.active[k]? with
  | none =>
      rw [stop_of_inactive hActive]
      exact h
  | some o =>
      have hOther : id ≠ k := by
        rintro rfl
        rw [h.inactive] at hActive
        contradiction
      refine
        { whole := whole_stop h.whole now k
          inactive := ?_
          put := ?_ }
      · rw [active_stop, if_neg hOther]
        exact h.inactive
      · intro e hFound
        rw [stop_of_active hActive] at hFound
        rcases Cache.found?_put_or_none h.whole now k o id with
          hNone | hSame
        · rw [hNone] at hFound
          contradiction
        · rw [hSame, if_neg hOther] at hFound
          exact h.put e hFound

/- After the time for which orders live there is nothing. -/
theorem place_eq
    (h : b.RetiredBy since id)
    (hLapsed : since + b.retired.ttl ≤ now) :
    b.place now id = ⟨none, none⟩ := by
  have hDead : b.retired.shown? now id = none := by
    rw [Cache.shown?_eq_filter, Option.map_eq_none_iff,
      Option.filter_eq_none_iff]
    intro e hFound hLive
    have hPut := h.put e hFound
    unfold Cache.isLive at hLive
    rw [decide_eq_true_iff] at hLive
    omega
  unfold place
  rw [h.inactive, hDead]

end RetiredBy

/- Nothing but a start brings a retired order back. -/
theorem steady_retiredBy
    (since : Nat)
    (id : OrderId) :
    Steady (RetiredBy since id) where
  write := fun h => h.write _
  stop := fun h => h.stop _ _
  findRetired := fun h => h.findRetired _ _
  purge := fun h => h.purge _

end Book

------------------------------------------------------------
-- Desks
------------------------------------------------------------

variable {L μ : Type}

namespace Desk

/-
  Nothing is left of an order: it is not found, it is not
  listed, and an update for it only leaves a note.
-/
structure Lacks
    (hear : Hearing L μ)
    (id : OrderId)
    (d : Desk L μ) : Prop where
  fetch : (d.perform hear (.fetch id)).2 = .order none
  fetchActive :
    (d.perform hear (.fetchActive id)).2 = .order none
  fetchRetired :
    (d.perform hear (.fetchRetired id)).2 = .order none
  active : id ∉ d.tracker.summary.active
  retired : id ∉ d.tracker.summary.retired
  /- No listener is called. -/
  update :
    ∀ u, u.orderId = id →
      d.perform hear (.update u) =
        (d.received u, .verdict (.ignored (.unknownOrder id)))

variable {hear : Hearing L μ} {d : Desk L μ} {id : OrderId}

/- An order whose place is empty is not found in any way. -/
theorem lacks_of_place
    (hear : Hearing L μ)
    (hWhole : d.tracker.book.Whole)
    (hPlace :
      d.tracker.book.place d.tracker.now id = ⟨none, none⟩) :
    d.Lacks hear id := by
  have hActive : d.tracker.book.active[id]? = none :=
    congrArg Place.active hPlace
  have hShown :
      d.tracker.book.retired.shown? d.tracker.now id = none :=
    congrArg Place.retired hPlace
  have hFound :
      (d.tracker.book.find d.tracker.now id).2 = none := by
    rw [Book.find_place, hPlace]
    rfl
  refine
    { fetch := congrArg Answer.order hFound
      fetchActive := congrArg Answer.order hActive
      fetchRetired := ?_
      active := ?_
      retired := ?_
      update := ?_ }
  · refine congrArg Answer.order ?_
    change (d.tracker.book.retired.get d.tracker.now id).2 = none
    rw [Cache.get_shown, hShown]
    rfl
  · change id ∉ d.tracker.book.active.toList.map Prod.fst
    rw [Std.ExtTreeMap.map_fst_toList_eq_keys,
      Std.ExtTreeMap.mem_keys]
    simpa using hActive
  · intro hListed
    rcases List.mem_map.mp hListed with ⟨⟨k, o⟩, hMem, rfl⟩
    rw [Book.mem_retiredOrders_iff hWhole] at hMem
    unfold Cache.shown? at hShown
    rw [Option.map_eq_none_iff] at hShown
    rw [hShown] at hMem
    contradiction
  · rintro u rfl
    have hReceipt := (Tracker.receive_unknown hFound).2
    change
      ((d.process hear u).1, Answer.verdict (d.process hear u).2) =
        _
    rw [process_eq]
    unfold heard
    rw [hReceipt]
    rfl

/-
  Somewhere among the deeds of a tracker an order is retired.
  Once as much time has gone by as a retired order lives,
  nothing is left of it, unless it has been started again.
  This is so for a listener that is called in between, and at
  the end of a run that comes down to these deeds.
-/
theorem retired_lapses
    {deeds : L → Event → Desk L μ → List Deed}
    (hDoes : hear.Does deeds)
    (policy : TerminalPolicy)
    (capacity ttl : Nat)
    (clock : Time.Clock)
    (sink : Sink L)
    (memory : μ)
    (before after : List Deed)
    (id : OrderId) :
    let d₀ : Desk L μ :=
      opening policy capacity ttl clock sink memory
    let t := d₀.tracker.afterAll before
    let t' := t.afterAll (.stop id :: after)
    t.book.isActive id = true →
    (∀ o, .start o ∈ after → o.id ≠ id) →
    t.now + ttl ≤ t'.now →
    (∀ d : Desk L μ,
        d.tracker.core = t'.core → d.Lacks hear id) ∧
      ∀ as : List Action,
        d₀.deedsAlong hear deeds as =
          before ++ .stop id :: after →
        (d₀.run hear as).1.Lacks hear id := by
  intro d₀ t t' hActive hOther hLapsed
  have hMade : t.book.Made capacity ttl :=
    Tracker.lasting_afterAll (Book.lasting_made capacity ttl)
      (Book.made_empty capacity ttl) before
  have hMade' : t'.book.Made capacity ttl :=
    Tracker.lasting_afterAll (Book.lasting_made capacity ttl)
      hMade (.stop id :: after)
  rcases (Book.isActive_iff t.book id).mp hActive with
    ⟨o, hActive⟩
  have hStopped :
      (t.after (.stop id)).book.RetiredBy t.now id := by
    change (t.stop id).1.book.RetiredBy t.now id
    rw [Tracker.book_of_core (t.core_stop id).1]
    exact Book.retiredBy_stop hMade.whole hActive t.now
  have hRetired : t'.book.RetiredBy t.now id :=
    Tracker.steady_afterAll (Book.steady_retiredBy t.now id)
      (fun hElse h => h.start hElse) hStopped hOther
  have hLacks :
      ∀ d : Desk L μ,
        d.tracker.core = t'.core → d.Lacks hear id := by
    intro d hCore
    have hBook : d.tracker.book = t'.book :=
      Tracker.book_of_core hCore
    have hNow : d.tracker.now = t'.now :=
      Tracker.now_of_core hCore
    apply lacks_of_place
    · rw [hBook]
      exact hMade'.whole
    · rw [hBook, hNow]
      apply hRetired.place_eq
      rw [hMade'.ttl_eq]
      exact hLapsed
  refine ⟨hLacks, ?_⟩
  intro as hDeeds
  apply hLacks
  rw [core_run hDoes, hDeeds, Tracker.afterAll_append]

/- A listener that looks up the order that it hears of. -/
def readingBack : Hearing Unit Unit := fun _ e d =>
  (d.withTracker (d.tracker.fetch e.orderId).1, .done)

theorem does_readingBack :
    readingBack.Does fun _ e _ => [.fetch e.orderId] :=
  fun _ _ _ => rfl

/-
  A cancelled order gets a late fill, which is read back, and
  is stopped and swept for.  It is still found at the end of
  its life, and not after it.
-/
theorem retired_lapses_readBack :
    let bus := (Bus.subscribeAll ∅ (.other "b" ())).1
    let desk : Desk Unit Unit :=
      opening .once 1 10 default (.bus bus) ()
    let deeds : Unit → Event → Desk Unit Unit → List Deed :=
      fun _ e _ => [.fetch e.orderId]
    let started := Order.ofRequest Order.sampleRequest
    let soon :=
      [Action.start started, .update cancellation, .advance 3,
        .update (.fill halfFill), .stop "a", .sweep, .advance 6]
    let before :=
      [Deed.start started, .receive cancellation, .fetch "a"]
    let after :=
      [Deed.advance 3, .receive (.fill halfFill), .fetch "a",
        .stop "a", .stop "a", .purge, .advance 6, .advance 1]
    ((desk.run readingBack soon).1.tracker.fetch "a").2.isSome ∧
      desk.deedsAlong readingBack deeds (soon ++ [.advance 1]) =
        before ++ .stop "a" :: after ∧
      (desk.run readingBack (soon ++ [.advance 1])).1.Lacks
        readingBack "a" := by
  intro bus desk deeds started soon before after
  have hDeeds :
      desk.deedsAlong readingBack deeds (soon ++ [.advance 1]) =
        before ++ .stop "a" :: after := by
    decide +kernel
  have hLapses :=
    retired_lapses does_readingBack .once 1 10 default (.bus bus)
      () before after "a" (by decide +kernel)
      (by simp [after]) (by decide +kernel)
  have hFound :
      ((desk.run readingBack soon).1.tracker.fetch
        "a").2.isSome = true := by
    decide +kernel
  have hLacks := hLapses.2 (soon ++ [.advance 1]) hDeeds
  exact ⟨hFound, hDeeds, hLacks⟩

end Desk

end OrderWatch
