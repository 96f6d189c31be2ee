import OrderWatch.Proofs.Book.Simulation
import OrderWatch.Proofs.Cache.Tally
import OrderWatch.Proofs.Desk.Lapsing
import OrderWatch.Proofs.Desk.Ledger

/-
  What the gauges show.

  The gauges are set when an order is started or stopped, and
  by a purge that drops something.  In between, orders expire
  without a notice; this is made up for by the next purge,
  which drops them.  An order that has been met by a look-up
  is gone by then.  If it had lived when the gauges were set,
  the purge overlooks it: it finds nothing to drop, and the
  gauge shows one order too many.

  Main declarations:
    * `Tracker.gauges`, `Tracker.gauges_after`
    * `Tracker.shown`, `Tracker.decided_shown`
    * `Glance`, `Tracker.overlooked`
    * `Tracker.Dials`, `Tracker.dials_along`
    * `Desk.gauges_after_purge`
-/

namespace OrderWatch

------------------------------------------------------------
-- Lists of orders
------------------------------------------------------------

/- As many retired orders are listed as there live. -/
theorem Book.length_retiredOrders
    {b : Book}
    (hWhole : b.Whole)
    (now : Nat) :
    (b.retiredOrders now).length =
      (b.retired.liveEntries now).length := by
  have hListed :
      ((b.retiredOrders now).map Prod.fst).Nodup := by
    unfold retiredOrders
    simp only
    rw [Std.ExtTreeMap.map_fst_toList_eq_keys]
    exact Std.ExtTreeMap.nodup_keys
  have hKeys :
      ((b.retired.liveEntries now).map
        Cache.Entry.key).Nodup := by
    rcases hWhole with ⟨order, age, h⟩
    exact h.nodup_keys.sublist (List.filter_sublist.map _)
  have hPerm :
      ((b.retiredOrders now).map Prod.fst).Perm
        ((b.retired.liveEntries now).map Cache.Entry.key) := by
    rw [List.perm_ext_iff_of_nodup hListed hKeys]
    intro id
    simp only [List.mem_map, Prod.exists, exists_and_right,
      exists_eq_right, mem_retiredOrders_iff hWhole,
      Option.map_eq_some_iff]
    constructor
    · rintro ⟨o, e, hLive, -⟩
      have hKey := hWhole.live?_key hLive
      subst hKey
      exact ⟨e, (hWhole.mem_liveEntries_iff now e).mpr hLive, rfl⟩
    · rintro ⟨e, hMem, rfl⟩
      exact
        ⟨e.value, e, (hWhole.mem_liveEntries_iff now e).mp hMem,
          rfl⟩
  have hLength := hPerm.length_eq
  rwa [List.length_map, List.length_map] at hLength

------------------------------------------------------------
-- Readings
------------------------------------------------------------

namespace Journal

theorem reading?_count
    (j : Journal)
    (c : Counter)
    (n : Nat) :
    (j.count c n).reading? = j.reading? := by
  unfold count
  split <;> rfl

end Journal

namespace Tracker

variable {t t' : Tracker}

/- What the gauges show, where they have been set. -/
def gauges (t : Tracker) : Gauge → Option Nat :=
  t.journal.reading?

/- What they should show. -/
def counts (t : Tracker) : Gauge → Nat
  | .activeOrders => t.book.activeCount
  | .cachedOrders => t.book.retiredCount t.now

/- Whether a deed has the gauges set. -/
def sets (t : Tracker) : Deed → Bool
  | .start _ => true
  | .stop id => t.book.isActive id
  | .purge => (t.book.purge t.now).2 != 0
  | .receive _ | .fetch _ | .fetchRetired _ | .advance _ => false

theorem gauges_count
    (t : Tracker)
    (c : Counter)
    (n : Nat) :
    (t.count c n).gauges = t.gauges :=
  t.journal.reading?_count c n

theorem gauges_measure
    (t : Tracker) :
    t.measure.gauges = fun g => some (t.counts g) := by
  funext g
  cases g <;> rfl

theorem gauges_announce
    (t : Tracker)
    (o : Order)
    (events : List Event) :
    (t.announce o events).gauges = t.gauges := by
  unfold announce
  induction events generalizing t with
  | nil => rfl
  | cons e events ih =>
      rw [List.foldl_cons, ih, gauges_count]
      rfl

/- An update does not have the gauges set. -/
theorem gauges_receive
    (t : Tracker)
    (u : Update) :
    (t.receive u).1.gauges = t.gauges := by
  unfold receive fetch
  rcases hFound : t.book.find t.now u.orderId with ⟨b, o?⟩
  cases o? with
  | none => exact gauges_count _ _ 1
  | some o =>
      simp only
      rcases o.apply u with ⟨p, outcome⟩
      cases outcome with
      | error why => rfl
      | ok outcome =>
          cases outcome with
          | unchanged => rfl
          | stale last => exact gauges_count _ _ 1
          | rejected reason => exact gauges_count _ _ 1
          | applied =>
              unfold applied
              simp only
              cases hEvents :
                  p.eventsSince o.snapshot u.channel t.clock.now
                    t.policy with
              | error why => rfl
              | ok events => exact gauges_announce _ p events

/- The gauges show what they did, unless they are set. -/
theorem gauges_after
    (t : Tracker)
    (a : Deed) :
    (t.after a).gauges =
      if t.sets a then fun g => some ((t.after a).counts g)
      else t.gauges := by
  cases a with
  | start o => exact gauges_measure _
  | receive u => exact t.gauges_receive u
  | stop id =>
      simp only [sets, after, stop, Book.isActive_eq]
      cases hActive : t.book.active[id]? with
      | none =>
          rw [Book.stop_of_inactive hActive]
          rfl
      | some o =>
          rw [Book.stop_of_active hActive]
          exact gauges_measure _
  | purge =>
      unfold sets
      simp only [after, purge]
      rcases hPurge : t.book.purge t.now with ⟨b, dropped⟩
      by_cases hNothing : dropped = 0
      · subst hNothing
        rfl
      · simp only [bne_iff_ne, ne_eq, hNothing,
          not_false_eq_true, if_true]
        exact gauges_measure _
  | _ => rfl

------------------------------------------------------------
-- What is shown of a tracker
------------------------------------------------------------

/- A tracker with its gauges, and without its messages. -/
def shown (t : Tracker) : Core × (Gauge → Option Nat) :=
  (t.core, t.gauges)

theorem core_of_shown
    (hSame : t'.shown = t.shown) :
    t'.core = t.core :=
  congrArg Prod.fst hSame

theorem counts_congr
    (hSame : t'.core = t.core) :
    t'.counts = t.counts := by
  funext g
  have hBook : t'.book = t.book := book_of_core hSame
  have hNow : t'.now = t.now := now_of_core hSame
  cases g with
  | activeOrders =>
      exact congrArg Book.activeCount hBook
  | cachedOrders =>
      change t'.book.retiredCount t'.now = _
      rw [hBook, hNow]
      rfl

theorem sets_congr
    (hSame : t'.core = t.core)
    (a : Deed) :
    t'.sets a = t.sets a := by
  have hBook : t'.book = t.book := book_of_core hSame
  have hNow : t'.now = t.now := now_of_core hSame
  unfold sets
  rw [hBook, hNow]

theorem decided_shown :
    Decided shown where
  after_congr := by
    intro t t' hSame a
    have hCore := core_of_shown hSame
    have hAfter := core_after_congr hCore a
    have hGauges : t'.gauges = t.gauges := congrArg Prod.snd hSame
    refine Prod.ext hAfter ?_
    change (t'.after a).gauges = (t.after a).gauges
    rw [gauges_after, gauges_after, sets_congr hCore,
      counts_congr hAfter, hGauges]
  said := fun _ _ _ _ => rfl
  failed := fun t topic =>
    Prod.ext rfl (t.gauges_count (.listenerFailures topic) 1)

------------------------------------------------------------
-- Steps of the cache
------------------------------------------------------------

/- The clock stands still in a purge. -/
theorem now_purge
    (t : Tracker) :
    (t.after .purge).now = t.now :=
  now_of_core t.core_purge.1

/- The book after an update, looked up and perhaps written. -/
theorem book_receive
    (t : Tracker)
    (u : Update) :
    (t.receive u).1.book = (t.fetch u.orderId).1.book ∨
      ∃ o,
        (t.receive u).1.book =
          (t.fetch u.orderId).1.book.write o := by
  cases hFound : (t.book.find t.now u.orderId).2 with
  | none => exact .inl (book_of_core (receive_unknown hFound).1)
  | some o =>
      exact .inr ⟨_, book_of_core (receive_known hFound).1⟩

/- The cache goes on from what it was. -/
theorem follows_after
    (t : Tracker)
    (a : Deed) :
    t.book.retired.Follows (t.after a).book.retired t.now := by
  cases a with
  | start o => exact Cache.Follows.refl _ _
  | receive u =>
      have hLooked := t.book.follows_find t.now u.orderId
      change t.book.retired.Follows (t.receive u).1.book.retired _
      rcases t.book_receive u with hSame | ⟨o, hWritten⟩
      · rw [hSame]
        exact hLooked
      · rw [hWritten]
        exact hLooked.trans (Book.follows_write _ o t.now)
  | stop id =>
      change t.book.retired.Follows (t.stop id).1.book.retired _
      rw [book_of_core (t.core_stop id).1]
      exact t.book.follows_stop t.now id
  | fetch id => exact t.book.follows_find t.now id
  | fetchRetired id => exact t.book.retired.follows_get t.now id
  | purge =>
      change t.book.retired.Follows t.purge.1.book.retired _
      rw [book_of_core t.core_purge.1]
      exact t.book.retired.follows_purge t.now
  | advance nanos => exact Cache.Follows.refl _ _

theorem timely_after
    (hTimely : t.book.retired.Timely t.now)
    {a : Deed}
    (hLater : t.now ≤ (t.after a).now) :
    (t.after a).book.retired.Timely (t.after a).now := by
  have hSame := (t.follows_after a).timely hTimely (le_refl t.now)
  exact (Cache.Follows.refl _ _).timely hSame hLater

/- The readings of the clock do not go back. -/
def Onward : Tracker → List Deed → Prop
  | _, [] => True
  | t, a :: ds => t.now ≤ (t.after a).now ∧ (t.after a).Onward ds

/- An order that is dropped, if it has lived at some time. -/
def dropped?
    (t : Tracker)
    (since : Nat) : Happening → Option OrderId
  | .reclaimed id =>
      if (t.book.retired.live? since id).isSome then
        some id
      else
        none
  | _ => none

/-
  The orders that a deed drops, having met them expired, of
  those that have lived at some time.
-/
def drops
    (t : Tracker)
    (since : Nat)
    (a : Deed) : List OrderId :=
  (t.happens a).filterMap (t.dropped? since)

/- How many orders a look-up drops. -/
theorem drops_fetchRetired
    (t : Tracker)
    (since : Nat)
    (id : OrderId) :
    (t.drops since (.fetchRetired id)).length =
      if t.book.retired.index[id]?.any
          (t.book.retired.isExpired t.now) then
        (t.book.retired.live? since id).toList.length
      else
        0 := by
  change ((t.reclaims id).filterMap (t.dropped? since)).length = _
  unfold reclaims
  split
  · cases hLive : t.book.retired.live? since id <;>
      simp [dropped?, hLive]
  · rfl

theorem drops_of_active
    {id : OrderId}
    (hActive : t.book.isActive id = true)
    (since : Nat) :
    t.drops since (.fetch id) = [] := by
  change (t.looksUp id).filterMap (t.dropped? since) = []
  unfold looksUp
  rw [if_pos hActive]
  rfl

theorem drops_of_inactive
    {id : OrderId}
    (hActive : t.book.isActive id = false)
    (since : Nat) :
    t.drops since (.fetch id) =
      t.drops since (.fetchRetired id) := by
  change (t.looksUp id).filterMap (t.dropped? since) = _
  unfold looksUp
  rw [hActive]
  rfl

theorem drops_receive
    (t : Tracker)
    (since : Nat)
    (u : Update) :
    t.drops since (.receive u) =
      t.drops since (.fetch u.orderId) := by
  unfold drops happens
  rw [List.filterMap_append]
  exact List.append_nil _

/-
  Of the retired orders that have lived at some time, a deed
  that does not have the gauges set takes away those that it
  drops, and no others.
-/
structure Spares
    (t : Tracker)
    (time : Nat)
    (dropped : List OrderId)
    (t' : Tracker) : Prop where
  active_eq : t'.book.activeCount = t.book.activeCount
  living_eq :
    (t'.book.retired.liveEntries time).length + dropped.length =
      (t.book.retired.liveEntries time).length

theorem spares_of_book
    (hSame : t'.book = t.book)
    (time : Nat) :
    t.Spares time [] t' where
  active_eq := by rw [hSame]
  living_eq := by rw [hSame]; rfl

theorem spares_fetchRetired
    (hWhole : t.book.Whole)
    (time : Nat)
    (id : OrderId) :
    t.Spares time (t.drops time (.fetchRetired id))
      (t.fetchRetired id).1 where
  active_eq := rfl
  living_eq := by
    rw [drops_fetchRetired]
    exact Cache.Whole.living_get hWhole t.now time id

theorem spares_fetch
    (hWhole : t.book.Whole)
    (time : Nat)
    (id : OrderId) :
    t.Spares time (t.drops time (.fetch id)) (t.fetch id).1 := by
  cases hActive : t.book.active[id]? with
  | some o =>
      have hIs : t.book.isActive id = true :=
        (t.book.isActive_iff id).mpr ⟨o, hActive⟩
      rw [drops_of_active hIs]
      apply spares_of_book
      unfold fetch
      rw [Book.find_of_active hActive]
  | none =>
      have hNot : t.book.isActive id = false := by
        rw [Book.isActive_eq, hActive]
        rfl
      have hSame : (t.fetch id).1 = (t.fetchRetired id).1 := by
        unfold fetch
        rw [Book.find_of_retired hActive]
        rfl
      rw [drops_of_inactive hNot, hSame]
      exact spares_fetchRetired hWhole time id

/- To write a record neither adds an order nor drops one. -/
theorem Spares.write
    {time : Nat}
    {dropped : List OrderId}
    (h : t.Spares time dropped t')
    (hWhole : t'.book.Whole)
    {t'' : Tracker}
    {o : Order}
    (hWritten : t''.book = t'.book.write o) :
    t.Spares time dropped t'' := by
  cases hActive : t'.book.active[o.id]? with
  | some p =>
      rw [Book.write_of_active hActive] at hWritten
      refine { active_eq := ?_, living_eq := ?_ }
      · rw [← h.active_eq, hWritten]
        unfold Book.activeCount
        rw [Std.ExtTreeMap.size_insert, if_pos]
        rw [Std.ExtTreeMap.contains_eq_isSome_getElem?, hActive]
        rfl
      · rw [hWritten]
        exact h.living_eq
  | none =>
      rw [Book.write_of_retired hActive] at hWritten
      refine { active_eq := ?_, living_eq := ?_ }
      · rw [hWritten]
        exact h.active_eq
      · rw [← h.living_eq, hWritten]
        congr 1
        exact Cache.Whole.living_modify hWhole o.id _ time

theorem spares_after
    (hWhole : t.book.Whole)
    {a : Deed}
    (hUnset : t.sets a = false)
    (time : Nat) :
    t.Spares time (t.drops time a) (t.after a) := by
  cases a with
  | start o => contradiction
  | advance nanos =>
      have hSame : (t.after (.advance nanos)).book = t.book := rfl
      exact spares_of_book hSame time
  | fetch id => exact spares_fetch hWhole time id
  | fetchRetired id => exact spares_fetchRetired hWhole time id
  | receive u =>
      have hLooked := spares_fetch hWhole time u.orderId
      rw [drops_receive]
      rcases t.book_receive u with hSame | ⟨o, hWritten⟩
      · have hSecond := spares_of_book hSame time
        exact
          { active_eq := hSecond.active_eq.trans hLooked.active_eq
            living_eq := by
              rw [← hLooked.living_eq, ← hSecond.living_eq]
              rfl }
      · exact
          hLooked.write (Book.whole_find hWhole t.now u.orderId)
            hWritten
  | stop id =>
      have hActive : t.book.active[id]? = none := by
        simpa only [sets, Book.isActive_eq,
          Option.isSome_eq_false_iff,
          Option.isNone_iff_eq_none] using hUnset
      have hStop := Book.stop_of_inactive hActive t.now
      have hNone : t.drops time (.stop id) = [] := by
        simp only [drops, happens, hStop]
        rfl
      rw [hNone]
      apply spares_of_book
      change (t.stop id).1.book = t.book
      rw [book_of_core (t.core_stop id).1, hStop]
  | purge =>
      have hNothing : (t.book.retired.purge t.now).2 = 0 := by
        simpa [sets, Book.purge] using hUnset
      apply spares_of_book
      change t.purge.1.book = t.book
      rw [book_of_core t.core_purge.1]
      simp only [Book.purge, Cache.purge_nothing hNothing]

------------------------------------------------------------
-- Gauges and what has gone since
------------------------------------------------------------

end Tracker

/-
  When the gauges have been set, and which orders that lived
  then have been dropped by look-ups.
-/
structure Glance where
  since : Nat
  missed : List OrderId

namespace Glance

def next (g : Glance) (t : Tracker) (a : Deed) : Glance :=
  if t.sets a then
    ⟨(t.after a).now, []⟩
  else
    ⟨g.since, g.missed ++ t.drops g.since a⟩

def along : Glance → Tracker → List Deed → Glance
  | g, _, [] => g
  | g, t, a :: ds => (g.next t a).along (t.after a) ds

end Glance

namespace Tracker

variable {t t' : Tracker} {g : Glance}

/-
  The orders that are overlooked after some deeds: look-ups
  have dropped them since the gauges were set.
-/
def overlooked (t : Tracker) (ds : List Deed) : List OrderId :=
  (Glance.along ⟨t.now, []⟩ t ds).missed

/- The gauges show what there was when they were set. -/
structure Dials (g : Glance) (t : Tracker) : Prop where
  timely : t.book.retired.Timely t.now
  earlier : g.since ≤ t.now
  active : t.gauges .activeOrders = some t.book.activeCount
  cached :
    t.gauges .cachedOrders =
      some
        ((t.book.retired.liveEntries g.since).length
          + g.missed.length)

theorem dials_set
    (hTimely : t.book.retired.Timely t.now)
    {a : Deed}
    (hLater : t.now ≤ (t.after a).now)
    (hSet : t.sets a = true) :
    (t.after a).Dials (g.next t a) := by
  have hAfter := timely_after hTimely hLater
  have hGauges := t.gauges_after a
  rw [hSet, if_pos rfl] at hGauges
  unfold Glance.next
  rw [if_pos hSet]
  refine
    { timely := hAfter
      earlier := le_refl _
      active := by rw [hGauges]; rfl
      cached := ?_ }
  rw [hGauges]
  exact congrArg some (hAfter.size_eq (t.after a).now)

theorem Dials.after
    (h : t.Dials g)
    {a : Deed}
    (hLater : t.now ≤ (t.after a).now) :
    (t.after a).Dials (g.next t a) := by
  cases hSet : t.sets a with
  | true => exact dials_set h.timely hLater hSet
  | false =>
      have hSpares := spares_after h.timely.whole hSet g.since
      have hLiving := hSpares.living_eq
      have hGauges := t.gauges_after a
      rw [hSet, if_neg (by decide)] at hGauges
      unfold Glance.next
      rw [hSet, if_neg (by decide)]
      refine
        { timely := timely_after h.timely hLater
          earlier := h.earlier.trans hLater
          active := ?_
          cached := ?_ }
      · rw [hGauges, hSpares.active_eq]
        exact h.active
      · rw [hGauges, h.cached, List.length_append]
        refine congrArg some ?_
        dsimp only
        omega

/- From the first start on, the gauges are so. -/
theorem dials_along
    (hTimely : t.book.retired.Timely t.now)
    {ds : List Deed}
    (hOnward : t.Onward ds)
    (hBegun : t.Dials g ∨ ∃ o, .start o ∈ ds) :
    (t.afterAll ds).Dials (g.along t ds) := by
  induction ds generalizing t g with
  | nil =>
      rcases hBegun with hDials | ⟨o, hMem⟩
      · exact hDials
      · contradiction
  | cons a ds ih =>
      rcases hOnward with ⟨hLater, hOnward⟩
      apply ih (timely_after hTimely hLater) hOnward
      rcases hBegun with hDials | ⟨o, hMem⟩
      · exact .inl (hDials.after hLater)
      · rcases List.mem_cons.mp hMem with rfl | hMem
        · exact .inl (dials_set hTimely hLater rfl)
        · exact .inr ⟨o, hMem⟩

------------------------------------------------------------
-- After a purge
------------------------------------------------------------

/- Some orders more than there are still seem to be retired. -/
structure ShowsBut
    (missed : List OrderId)
    (t : Tracker) : Prop where
  active : t.gauges .activeOrders = some t.summary.active.length
  cached :
    t.gauges .cachedOrders =
      some (t.summary.retired.length + missed.length)

/- The gauges show how many orders there are. -/
def GaugesRight (t : Tracker) : Prop :=
  t.gauges .activeOrders = some t.summary.active.length ∧
    t.gauges .cachedOrders = some t.summary.retired.length

instance (t : Tracker) : Decidable t.GaugesRight :=
  inferInstanceAs (Decidable (_ ∧ _))

theorem ShowsBut.right_iff
    {missed : List OrderId}
    (h : t.ShowsBut missed) :
    t.GaugesRight ↔ missed = [] := by
  unfold GaugesRight
  rw [h.active, h.cached, ← List.length_eq_zero_iff]
  simp

theorem ShowsBut.of_shown
    {missed : List OrderId}
    (h : t.ShowsBut missed)
    (hSame : t'.shown = t.shown) :
    t'.ShowsBut missed := by
  have hGauges : t'.gauges = t.gauges := congrArg Prod.snd hSame
  have hCore := core_of_shown hSame
  have hBook : t'.book = t.book := book_of_core hCore
  have hClock : t'.clock = t.clock := clock_of_core hCore
  have hSummary : t'.summary = t.summary := by
    unfold summary now
    rw [hBook, hClock]
  exact
    { active := by rw [hGauges, hSummary, h.active]
      cached := by rw [hGauges, hSummary, h.cached] }

/-
  A purge leaves only orders that live, and these have lived
  when the gauges were set.
-/
theorem Dials.showsBut_purge
    (hTimely : t.book.retired.Timely t.now)
    (h : (t.after .purge).Dials g) :
    (t.after .purge).ShowsBut g.missed := by
  have hNow := t.now_purge
  have hPurged :
      (t.after .purge).book.retired =
        (t.book.retired.purge t.now).1 :=
    congrArg Book.retired (book_of_core t.core_purge.1)
  have hEarlier := h.earlier
  rw [hNow] at hEarlier
  have hLiving := hTimely.living_purge hEarlier
  rw [← hPurged] at hLiving
  refine { active := ?_, cached := ?_ }
  · rw [h.active]
    refine congrArg some ?_
    change _ = ((t.after .purge).book.active.toList.map _).length
    rw [List.length_map, Std.ExtTreeMap.length_toList]
    rfl
  · rw [h.cached, ← hLiving]
    refine congrArg (fun n => some (n + g.missed.length)) ?_
    change
      _ = (((t.after .purge).book.retiredOrders _).map _).length
    rw [List.length_map,
      Book.length_retiredOrders h.timely.whole, hNow]

theorem onward_purge
    {ds : List Deed}
    (hOnward : t.Onward ds) :
    t.Onward (ds ++ [.purge]) := by
  induction ds generalizing t with
  | nil => exact ⟨t.now_purge.ge, trivial⟩
  | cons a ds ih => exact ⟨hOnward.1, ih hOnward.2⟩

theorem timely_afterAll
    (hTimely : t.book.retired.Timely t.now)
    {ds : List Deed}
    (hOnward : t.Onward ds) :
    (t.afterAll ds).book.retired.Timely (t.afterAll ds).now := by
  induction ds generalizing t with
  | nil => exact hTimely
  | cons a ds ih =>
      exact ih (timely_after hTimely hOnward.1) hOnward.2

end Tracker

------------------------------------------------------------
-- Runs
------------------------------------------------------------

namespace Desk

variable {L μ : Type} {hear : Hearing L μ}
variable {deeds : L → Event → Desk L μ → List Deed}

/-
  Once an order has been started, a purge leaves the gauges
  showing how many orders there are, and one retired order
  more for each one overlooked.  So they are right exactly if
  no look-up has dropped an order that had lived when they
  were set.  This is so for listeners that are called in
  between, and at the end of a run that comes down to these
  deeds.
-/
theorem gauges_after_purge
    (hDoes : hear.DoesSeen Tracker.shown deeds)
    (policy : TerminalPolicy)
    (capacity ttl : Nat)
    (clock : Time.Clock)
    (sink : Sink L)
    (memory : μ)
    (before : List Deed) :
    let d₀ : Desk L μ :=
      opening policy capacity ttl clock sink memory
    let ds := before ++ [.purge]
    let missed := d₀.tracker.overlooked ds
    (∃ o, .start o ∈ before) →
    d₀.tracker.Onward before →
    (∀ t : Tracker,
        t.shown = (d₀.tracker.afterAll ds).shown →
          t.ShowsBut missed ∧ (t.GaugesRight ↔ missed = [])) ∧
      ∀ as : List Action,
        d₀.deedsAlong hear deeds as = ds →
          let t := (d₀.run hear as).1.tracker
          t.ShowsBut missed ∧ (t.GaugesRight ↔ missed = []) := by
  intro d₀ ds missed hBegun hOnward
  let t := d₀.tracker.afterAll before
  have hTimely : d₀.tracker.book.retired.Timely d₀.tracker.now :=
    Cache.timely_empty capacity ttl _
  have hBefore : t.book.retired.Timely t.now :=
    Tracker.timely_afterAll hTimely hOnward
  have hLast : d₀.tracker.afterAll ds = t.after .purge :=
    Tracker.afterAll_append _ before [.purge]
  have hDials :
      (d₀.tracker.afterAll ds).Dials
        (Glance.along ⟨d₀.tracker.now, []⟩ d₀.tracker ds) := by
    apply Tracker.dials_along hTimely
    · exact Tracker.onward_purge hOnward
    · rcases hBegun with ⟨o, hMem⟩
      exact .inr ⟨o, List.mem_append_left [.purge] hMem⟩
  rw [hLast] at hDials
  have hShows : (d₀.tracker.afterAll ds).ShowsBut missed := by
    rw [hLast]
    exact hDials.showsBut_purge hBefore
  have hAll :
      ∀ t : Tracker,
        t.shown = (d₀.tracker.afterAll ds).shown →
          t.ShowsBut missed ∧ (t.GaugesRight ↔ missed = []) := by
    intro t hSame
    have hThere := hShows.of_shown hSame
    exact ⟨hThere, hThere.right_iff⟩
  refine ⟨hAll, ?_⟩
  intro as hDeeds
  apply hAll
  rw [decided_run Tracker.decided_shown hDoes, hDeeds]

/-
  A cancelled order is retired and expires, and a fill that
  comes late looks it up.  The purge after that finds nothing,
  and the gauge shows one order where there is none.
-/
theorem gauges_after_purge_readBack :
    let bus := (Bus.subscribeAll ∅ (.other "b" ())).1
    let desk : Desk Unit Unit :=
      opening .once 1 10 default (.bus bus) ()
    let deeds : Unit → Event → Desk Unit Unit → List Deed :=
      fun _ e _ => [.fetch e.orderId]
    let started := Order.ofRequest Order.sampleRequest
    let as : List Action :=
      [.start started, .update cancellation, .advance 10,
        .update (.fill halfFill), .purge]
    let before : List Deed :=
      [.start started, .receive cancellation, .fetch "a",
        .stop "a", .advance 10, .receive (.fill halfFill)]
    let t := (desk.run readingBack as).1.tracker
    desk.deedsAlong readingBack deeds as = before ++ [.purge] ∧
      t.ShowsBut ["a"] ∧
      t.summary.retired = [] ∧
      ¬ t.GaugesRight := by
  intro bus desk deeds started as before t
  have hDoes : readingBack.DoesSeen Tracker.shown deeds :=
    fun _ _ _ => rfl
  have hDeeds :
      desk.deedsAlong readingBack deeds as =
        before ++ [.purge] := by
    decide +kernel
  have hMissed :
      desk.tracker.overlooked (before ++ [.purge]) = ["a"] := by
    decide +kernel
  have hOnward : desk.tracker.Onward before := by
    simp only [before, Tracker.Onward]
    decide +kernel
  -- For any actions, since a run of given ones is evaluated.
  have hPurged :
      ∀ as,
        desk.deedsAlong readingBack deeds as =
            before ++ [.purge] →
          let t := (desk.run readingBack as).1.tracker
          t.ShowsBut ["a"] ∧ (t.GaugesRight ↔ ["a"] = []) := by
    rw [← hMissed]
    exact
      (gauges_after_purge hDoes .once 1 10 default (.bus bus) ()
        before ⟨started, by simp [before]⟩ hOnward).2
  have hShows := hPurged as hDeeds
  refine ⟨hDeeds, hShows.1, by decide +kernel, ?_⟩
  rw [hShows.2]
  decide

/-
  Room for one order: it is stopped, expires, is looked up,
  and then a purge is made.  No order is left, and the gauge
  still shows one.
-/
theorem not_gaugesRight_fetched :
    let as : List Action :=
      [.start (.ofRequest Order.sampleRequest), .stop "a",
        .advance 10, .fetch "a", .purge]
    let t := (smallDesk.run Hearing.idle as).1.tracker
    t.summary.active = [] ∧
      t.summary.retired = [] ∧
      t.gauges .cachedOrders = some 1 ∧
      ¬ t.GaugesRight := by
  refine ⟨?_, ?_, ?_, ?_⟩ <;> decide +kernel

end Desk

end OrderWatch
