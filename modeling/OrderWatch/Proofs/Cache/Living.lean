import OrderWatch.Proofs.Cache.Layout
import OrderWatch.Proofs.Cache.Refinement

/-
  The living entries of a cache.

  What a step makes of the living entries depends on these
  alone, and not on the expired ones that still take up room:
  a put that overflows drops the expired entries before it
  evicts any other, and one that takes the place of an
  expired entry evicts none.  So two caches with the same
  living entries, the one last used first, go on alike, and a
  purge cannot be noticed.

  Main declarations:
    * `Cache.live?_congr`
    * `Cache.liveEntries_modify`, `Cache.liveEntries_purge`
    * `Cache.liveEntries_put`, `Cache.liveEntries_get`
    * `Cache.Alike`
    * `Cache.Alike.put`, `Cache.Alike.get`
    * `Cache.Alike.purgeLeft`, `Cache.Alike.purgeRight`
-/

namespace OrderWatch

namespace Cache

variable {K V : Type} [Ord K]
variable {c d c' d' : Cache K V} {last now : Nat}

------------------------------------------------------------
-- Entries that are kept alive
------------------------------------------------------------

/- An entry that is tested twice passes if it passes once. -/
theorem filter_filter_twice
    {α : Type}
    (p q : α → Bool)
    (xs : List α) :
    ((xs.filter p).filter q).filter p =
      (xs.filter q).filter p := by
  rw [List.filter_filter, List.filter_filter,
    List.filter_filter]
  apply List.filter_congr
  intro x _
  cases p x <;> cases q x <;> rfl

/- Of the entries that live now, all have lived before. -/
theorem liveEntries_later
    (c : Cache K V)
    (hLater : last ≤ now) :
    c.liveEntries now =
      (c.liveEntries last).filter (c.isLive now) := by
  unfold liveEntries
  rw [List.filter_filter]
  apply List.filter_congr
  intro e _
  cases hLive : c.isLive now e with
  | false => rfl
  | true => rw [isLive_of_later hLater hLive, Bool.and_self]

variable [Std.TransOrd K]

theorem Whole.live?_key
    (hWhole : c.Whole)
    {k : K}
    {e : Entry K V}
    (hLive : c.live? now k = some e) :
    e.key = k := by
  rw [live?_eq_filter, Option.filter_eq_some_iff] at hLive
  exact hWhole.found?_key hLive.1

/- What lives under a key is told by the living entries. -/
theorem live?_congr
    (hWhole : c.Whole)
    (hWhole' : d.Whole)
    (hLiving : d.liveEntries now = c.liveEntries now)
    (k : K) :
    d.live? now k = c.live? now k := by
  apply Option.ext
  intro e
  constructor
  · intro hLive
    have hKey := hWhole'.live?_key hLive
    subst hKey
    rw [← hWhole.mem_liveEntries_iff, ← hLiving,
      hWhole'.mem_liveEntries_iff]
    exact hLive
  · intro hLive
    have hKey := hWhole.live?_key hLive
    subst hKey
    rw [← hWhole'.mem_liveEntries_iff, hLiving,
      hWhole.mem_liveEntries_iff]
    exact hLive

section Keys

variable [DecidableEq K] {order age : List Nat}

/- No entry has a key that is not stored. -/
theorem Holds.filter_key_of_new
    (h : c.Holds order age)
    {k : K}
    (hNew : c.index[k]? = none) :
    (c.entries.filter fun e => e.key ≠ k) = c.entries := by
  have hNone := h.find?_entries k
  rw [hNew, Option.bind_none, List.find?_eq_none] at hNone
  rw [List.filter_eq_self]
  intro e hMem
  simpa using hNone e hMem

/- Without a key that is stored there are fewer entries. -/
theorem Holds.length_filter_key
    (h : c.Holds order age)
    {k : K}
    {i : Nat}
    (hIndex : c.index[k]? = some i) :
    (c.entries.filter fun e => e.key ≠ k).length <
      c.entries.length := by
  rcases h.entry?_of_index hIndex with ⟨e, hEntry, hKey⟩
  have hMem := (h.mem_entries_iff e).mpr ⟨i, hEntry⟩
  rw [List.length_filter_lt_length_iff_exists]
  exact ⟨e, hMem, by simpa using hKey⟩

end Keys

------------------------------------------------------------
-- Living entries after a step
------------------------------------------------------------

section Steps

/- Where a value is changed, the entries keep their places. -/
theorem entries_modify
    [DecidableEq K]
    (hWhole : c.Whole)
    (k : K)
    (f : V → V) :
    (c.modify k f).entries =
      c.entries.map fun e =>
        if e.key = k then { e with value := f e.value }
        else e := by
  rcases hWhole with ⟨order, age, h⟩
  cases hIndex : c.index[k]? with
  | none =>
      have hSame : c.modify k f = c := by
        unfold modify
        rw [hIndex]
      have hApart := h.filter_key_of_new hIndex
      rw [List.filter_eq_self] at hApart
      rw [hSame, List.map_congr_left (g := fun e => e),
        List.map_id']
      intro e hMem
      rw [if_neg (by simpa using hApart e hMem)]
  | some i =>
      rcases h.entry?_of_index hIndex with ⟨e, hEntry, hKey⟩
      have hModify :
          c.modify k f =
            c.modifySlot i fun e =>
              { e with value := f e.value } := by
        unfold modify
        rw [hIndex]
      have hModified :=
        h.modifySlot i (f := fun e =>
          { e with value := f e.value }) (fun _ => rfl)
      rw [hModify, hModified.entries_eq, h.entries_eq,
        List.map_filterMap]
      apply List.filterMap_congr
      intro j _
      rw [entry?_modifySlot]
      by_cases hSame : j = i
      · rw [if_pos hSame, hSame, hEntry]
        simp [hKey]
      · rw [if_neg hSame]
        cases hOther : c.entry? j with
        | none => rfl
        | some d =>
            have hApart : d.key ≠ k := by
              intro hTwice
              exact
                hSame
                  (h.slot_unique hOther hEntry
                    (hTwice.trans hKey.symm))
            simp [hApart]

theorem liveEntries_modify
    [DecidableEq K]
    (hWhole : c.Whole)
    (k : K)
    (f : V → V)
    (now : Nat) :
    (c.modify k f).liveEntries now =
      (c.liveEntries now).map fun e =>
        if e.key = k then { e with value := f e.value }
        else e := by
  change (c.modify k f).entries.filter _ =
    (c.entries.filter _).map _
  rw [entries_modify hWhole,
    (c.follows_modify k f now).isLive_eq, List.filter_map]
  congr 1
  apply List.filter_congr
  intro e _
  simp only [Function.comp_apply]
  split <;> rfl

variable [Std.LawfulEqOrd K]

theorem liveEntries_purge
    (hTimely : c.Timely now) :
    (c.purge now).1.liveEntries now = c.liveEntries now := by
  rcases hTimely with ⟨order, age, h, hDated⟩
  have hEntries :
      (c.purge now).1.entries = c.liveEntries now :=
    h.entries_purge hDated now
  change (c.purge now).1.entries.filter _ = _
  rw [hEntries, (c.follows_purge now).isLive_eq,
    List.filter_eq_self]
  intro e hMem
  exact (List.mem_filter.mp hMem).2

/- A put of a key that is not stored. -/
theorem liveEntries_enter_shrink
    (hTimely : c.Timely now)
    {k : K}
    (hNew : c.index[k]? = none)
    (v : V) :
    ((c.enter ⟨k, v, now, now⟩).shrink now).entries.filter
        (c.isLive now) =
      ((⟨k, v, now, now⟩ :: c.entries).filter
        (c.isLive now)).take c.capacity := by
  have hFollows :=
    c.follows_enter (e := ⟨k, v, now, now⟩) hNew
  have hEntered := hFollows.timely hTimely (le_refl now)
  rcases hTimely with ⟨order, age, h, _⟩
  rcases hEntered with ⟨order', age', h', hDated'⟩
  have hShrunk := h'.entries_shrink hDated' now
  rw [h.entries_enter hNew, hFollows.isLive_eq,
    hFollows.capacity_eq] at hShrunk
  rw [hShrunk]
  split
  · rw [List.filter_eq_self]
    intro e hMem
    exact (List.mem_filter.mp (List.mem_of_mem_take hMem)).2
  · rename_i hEnough
    rw [List.take_of_length_le]
    exact
      (List.length_filter_le _ _).trans (Nat.not_lt.mp hEnough)

variable [DecidableEq K]

/-
  A put brings the new entry on top of the others that live,
  and keeps as many as there is room for.
-/
theorem liveEntries_put
    (hTimely : c.Timely now)
    (hRoom : c.stored ≤ c.capacity)
    (k : K)
    (v : V) :
    (c.put now k v).1.liveEntries now =
      ((⟨k, v, now, now⟩ ::
          (c.liveEntries now).filter fun e => e.key ≠ k).filter
        (c.isLive now)).take c.capacity := by
  have hOthers :
      (⟨k, v, now, now⟩ ::
          (c.liveEntries now).filter fun e => e.key ≠ k).filter
        (c.isLive now) =
      (⟨k, v, now, now⟩ ::
          c.entries.filter fun e => e.key ≠ k).filter
        (c.isLive now) := by
    rw [List.filter_cons, List.filter_cons]
    unfold liveEntries
    rw [filter_filter_twice]
    rfl
  have hHolds := hTimely
  rcases hHolds with ⟨order, age, h, _⟩
  change (c.put now k v).1.entries.filter _ = _
  rw [hOthers, (c.follows_put now k v).isLive_eq]
  cases hIndex : c.index[k]? with
  | none =>
      rw [put_new c hIndex, h.filter_key_of_new hIndex]
      exact liveEntries_enter_shrink hTimely hIndex v
  | some i =>
      have hFewer := h.length_filter_key hIndex
      have hLength :=
        List.length_filter_le (c.isLive now)
          (⟨k, v, now, now⟩ ::
            c.entries.filter fun e => e.key ≠ k)
      rw [List.length_cons] at hLength
      rw [h.stored_entries] at hRoom
      rw [h.entries_put_stored hIndex, List.take_of_length_le]
      omega

/-
  A look-up brings the entry of its key on top of the others
  that live.
-/
theorem liveEntries_get
    (hTimely : c.Timely now)
    (k : K) :
    (c.get now k).1.liveEntries now =
      ((c.live? now k).map fun e =>
          { e with lastAccess := now }).toList ++
        (c.liveEntries now).filter fun e => e.key ≠ k := by
  have hFollows := c.follows_get now k
  have hHolds := hTimely
  rcases hHolds with ⟨order, age, h, _⟩
  rw [live?_eq_filter]
  change
    (c.get now k).1.entries.filter _ =
      _ ++ (c.entries.filter _).filter _
  rw [hFollows.isLive_eq, List.filter_comm]
  cases hIndex : c.index[k]? with
  | none =>
      have hNone : c.found? k = none := by simp [found?, hIndex]
      rw [hNone, h.filter_key_of_new hIndex]
      simp only [get, hIndex]
      rfl
  | some i =>
      rcases h.entry?_of_index hIndex with ⟨e, hEntry, rfl⟩
      have hFound : c.found? e.key = some e := by
        simp [found?, hIndex, hEntry]
      have hTest := isExpired_eq hIndex now
      rw [hFound, Option.any_some] at hTest
      rw [hFound, Option.filter_some]
      cases hLive : c.isLive now e with
      | false =>
          rw [hLive] at hTest
          rw [get_expired c hIndex hTest, h.entries_drop hEntry]
          rfl
      | true =>
          have hUsed :
              c.isLive now { e with lastAccess := now } =
                true :=
            hLive
          rw [hLive] at hTest
          rw [h.entries_get_live hIndex hEntry hTest,
            List.filter_cons_of_pos hUsed]
          rfl

end Steps

------------------------------------------------------------
-- Caches with the same living entries
------------------------------------------------------------

/- Two caches that differ in expired entries only. -/
structure Alike (c d : Cache K V) (now : Nat) : Prop where
  timely : c.Timely now
  timely' : d.Timely now
  fits : c.Fits c.capacity (c.capacity + 1)
  fits' : d.Fits d.capacity (d.capacity + 1)
  capacity_eq : d.capacity = c.capacity
  ttl_eq : d.ttl = c.ttl
  living_eq : d.liveEntries now = c.liveEntries now

namespace Alike

theorem empty
    (capacity ttl now : Nat) :
    (Cache.empty capacity ttl : Cache K V).Alike
      (Cache.empty capacity ttl) now where
  timely := timely_empty capacity ttl now
  timely' := timely_empty capacity ttl now
  fits := ⟨Nat.zero_le _, Nat.zero_le _⟩
  fits' := ⟨Nat.zero_le _, Nat.zero_le _⟩
  capacity_eq := rfl
  ttl_eq := rfl
  living_eq := rfl

theorem symm
    (h : c.Alike d now) :
    d.Alike c now where
  timely := h.timely'
  timely' := h.timely
  fits := h.fits'
  fits' := h.fits
  capacity_eq := h.capacity_eq.symm
  ttl_eq := h.ttl_eq.symm
  living_eq := h.living_eq.symm

theorem isLive_eq
    (h : c.Alike d last)
    (now : Nat) :
    d.isLive now = c.isLive now := by
  funext e
  unfold isLive
  rw [h.ttl_eq]

theorem live?_eq
    (h : c.Alike d now)
    (k : K) :
    d.live? now k = c.live? now k :=
  live?_congr h.timely.whole h.timely'.whole h.living_eq k

/- Both caches have come on by steps of their own. -/
theorem follow
    (h : c.Alike d last)
    (hLater : last ≤ now)
    (hFollows : c.Follows c' now)
    (hFollows' : d.Follows d' now)
    (hFits : c'.Fits c.capacity (c.capacity + 1))
    (hFits' : d'.Fits d.capacity (d.capacity + 1))
    (hLiving : d'.liveEntries now = c'.liveEntries now) :
    c'.Alike d' now where
  timely := hFollows.timely h.timely hLater
  timely' := hFollows'.timely h.timely' hLater
  fits := hFollows.capacity_eq ▸ hFits
  fits' := hFollows'.capacity_eq ▸ hFits'
  capacity_eq := by
    rw [hFollows'.capacity_eq, hFollows.capacity_eq,
      h.capacity_eq]
  ttl_eq := by
    rw [hFollows'.ttl_eq, hFollows.ttl_eq, h.ttl_eq]
  living_eq := hLiving

/- Time goes on. -/
theorem later
    (h : c.Alike d last)
    (hLater : last ≤ now) :
    c.Alike d now := by
  apply h.follow hLater (Follows.refl c now) (Follows.refl d now)
    h.fits h.fits'
  rw [c.liveEntries_later hLater, d.liveEntries_later hLater,
    h.living_eq, h.isLive_eq]

theorem modify
    [DecidableEq K]
    (h : c.Alike d now)
    (k : K)
    (f : V → V) :
    (c.modify k f).Alike (d.modify k f) now := by
  apply h.follow (le_refl now) (c.follows_modify k f now)
    (d.follows_modify k f now) (h.fits.modify k f)
    (h.fits'.modify k f)
  rw [liveEntries_modify h.timely.whole,
    liveEntries_modify h.timely'.whole, h.living_eq]

variable [Std.LawfulEqOrd K]

/- A purge of one of them is not noticed. -/
theorem purgeRight
    (h : c.Alike d now) :
    c.Alike (d.purge now).1 now := by
  apply h.follow (le_refl now) (Follows.refl c now)
    (d.follows_purge now) h.fits (h.fits'.purge now)
  rw [liveEntries_purge h.timely', h.living_eq]

theorem purgeLeft
    (h : c.Alike d now) :
    (c.purge now).1.Alike d now :=
  h.symm.purgeRight.symm

variable [DecidableEq K]

theorem get
    (h : c.Alike d now)
    (k : K) :
    (c.get now k).1.Alike (d.get now k).1 now := by
  apply h.follow (le_refl now) (c.follows_get now k)
    (d.follows_get now k) (h.fits.get now k) (h.fits'.get now k)
  rw [liveEntries_get h.timely, liveEntries_get h.timely',
    h.living_eq, h.live?_eq]

theorem put
    (h : c.Alike d now)
    (k : K)
    (v : V) :
    (c.put now k v).1.Alike (d.put now k v).1 now := by
  apply h.follow (le_refl now) (c.follows_put now k v)
    (d.follows_put now k v)
    (h.fits.put h.timely.whole now k v)
    (h.fits'.put h.timely'.whole now k v)
  rw [liveEntries_put h.timely h.fits.stored_le,
    liveEntries_put h.timely' h.fits'.stored_le,
    h.living_eq, h.isLive_eq, h.capacity_eq]

end Alike

end Cache

end OrderWatch
