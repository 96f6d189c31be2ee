import OrderWatch.Proofs.Cache.Kept

/-
  A cache that has lost some of its expired entries.

  Looking up an expired entry drops it, so of two caches that
  are used alike but for some look-ups, one may have lost
  entries that still lie in the other.  As long as time does
  not go back these entries are expired, and nothing that is
  answered tells the caches apart, save the count of a purge.

  Main declarations:
    * `Cache.Timely`, `Cache.Forgets`
    * `Cache.Forgets.live?_eq`
    * `Cache.Forgets.get`, `Cache.Forgets.getAgain`
    * `Cache.Forgets.put`, `Cache.Forgets.purge`
-/

namespace OrderWatch

namespace Cache

section Entries

variable {K V : Type}

/- All of an entry but its last use. -/
def Entry.stamp (e : Entry K V) : V × Nat :=
  (e.value, e.insertedAt)

/- Entries under fewer keys are fewer. -/
theorem length_le_of_keys
    {xs ys : List (Entry K V)}
    (hNodup : (xs.map Entry.key).Nodup)
    (hKeys : ∀ x ∈ xs, ∃ y ∈ ys, y.key = x.key) :
    xs.length ≤ ys.length := by
  have hSubset :
      xs.map Entry.key ⊆ ys.map Entry.key := by
    intro k hMem
    rcases List.mem_map.mp hMem with ⟨x, hLeft, rfl⟩
    rcases hKeys x hLeft with ⟨y, hRight, hKey⟩
    exact List.mem_map.mpr ⟨y, hRight, hKey⟩
  have hLength := hNodup.length_le_of_subset hSubset
  rwa [List.length_map, List.length_map] at hLength

variable [Ord K] {c d : Cache K V} {last now : Nat}

/- An entry that lives has lived before. -/
theorem isLive_of_later
    {e : Entry K V}
    (hLater : last ≤ now)
    (hLive : c.isLive now e = true) :
    c.isLive last e = true := by
  unfold isLive at hLive ⊢
  rw [decide_eq_true_eq] at hLive ⊢
  omega

/- Entries with one stamp live alike in caches made alike. -/
theorem filter_isLive_stamp
    (hTtl : d.ttl = c.ttl)
    {x y : Option (Entry K V)}
    (hSame : x.map Entry.stamp = y.map Entry.stamp)
    (now : Nat) :
    (x.filter (d.isLive now)).map Entry.stamp =
      (y.filter (c.isLive now)).map Entry.stamp := by
  cases x with
  | none =>
      cases y with
      | none => rfl
      | some e => contradiction
  | some f =>
      cases y with
      | none => contradiction
      | some e =>
          have hStamp : f.stamp = e.stamp :=
            Option.some.inj hSame
          have hTime : f.insertedAt = e.insertedAt :=
            congrArg Prod.snd hStamp
          have hLive : d.isLive now f = c.isLive now e := by
            unfold isLive
            rw [hTtl, hTime]
          rw [Option.filter_some, Option.filter_some, hLive]
          split
          · exact hSame
          · rfl

end Entries

variable {K V : Type} [Ord K] [Std.TransOrd K]

/- The parts of a cache hold together, and it is dated. -/
def Timely (c : Cache K V) (now : Nat) : Prop :=
  ∃ order age, c.Holds order age ∧ c.Dated age now

/-
  A cache `d` has what a cache `c` has, but for the use of
  the entries and for entries that have expired.
-/
structure Forgets (c d : Cache K V) (now : Nat) : Prop where
  timely : c.Timely now
  timely' : d.Timely now
  capacity_eq : d.capacity = c.capacity
  ttl_eq : d.ttl = c.ttl
  room : c.stored ≤ c.capacity
  found :
    ∀ k,
      (d.found? k).map Entry.stamp =
          (c.found? k).map Entry.stamp ∨
        (d.found? k = none ∧
          (c.found? k).filter (c.isLive now) = none)

variable {c d c' d' : Cache K V} {last now : Nat}

------------------------------------------------------------
-- Times
------------------------------------------------------------

theorem Timely.whole
    (hTimely : c.Timely now) :
    c.Whole := by
  rcases hTimely with ⟨order, age, h, _⟩
  exact ⟨order, age, h⟩

theorem timely_empty
    (capacity ttl now : Nat) :
    (empty capacity ttl : Cache K V).Timely now :=
  ⟨[], [], holds_empty capacity ttl,
    List.pairwise_singleton _ now⟩

theorem Follows.timely
    (hFollows : c.Follows d now)
    (hTimely : c.Timely last)
    (hLater : last ≤ now) :
    d.Timely now := by
  rcases hTimely with ⟨order, age, h, hDated⟩
  rcases hFollows.held order age h with ⟨order', age', h', hKept⟩
  exact ⟨order', age', h', hKept last hLater hDated⟩

------------------------------------------------------------
-- Sizes
------------------------------------------------------------

theorem stored_le_of_found?
    (hWhole : c.Whole)
    (hWhole' : d.Whole)
    (hFound :
      ∀ k, (d.found? k).isSome → (c.found? k).isSome) :
    d.stored ≤ c.stored := by
  have hLeft := hWhole'
  have hRight := hWhole
  rcases hLeft with ⟨order', age', h'⟩
  rcases hRight with ⟨order, age, h⟩
  rw [h'.stored_entries, h.stored_entries]
  apply length_le_of_keys h'.nodup_keys
  intro f hMem
  rw [hWhole'.mem_entries_iff] at hMem
  have hSome := hFound f.key (by rw [hMem]; rfl)
  rcases Option.isSome_iff_exists.mp hSome with ⟨e, hEntry⟩
  have hKey := hWhole.found?_key hEntry
  refine ⟨e, ?_, hKey⟩
  rw [hWhole.mem_entries_iff, hKey, hEntry]

/- A put that drops nothing has had room. -/
theorem Whole.room_of_put
    [Std.LawfulEqOrd K]
    (hWhole : c.Whole)
    {k : K}
    {v : V}
    (hNone : (c.put now k v).2 = 0)
    (hNew : c.index[k]? = none) :
    (c.enter ⟨k, v, now, now⟩).stored ≤ c.capacity := by
  have hFollows :=
    c.follows_enter (e := ⟨k, v, now, now⟩) hNew
  have hShrunk :=
    (hFollows.whole hWhole).stored_shrink_le now
  rw [hFollows.capacity_eq] at hShrunk
  rw [put_new c hNew] at hNone
  exact (Nat.sub_eq_zero_iff_le.mp hNone).trans hShrunk

------------------------------------------------------------
-- Purges
------------------------------------------------------------

/- A purge keeps what lives. -/
theorem found?_purge
    [Std.LawfulEqOrd K]
    (hTimely : c.Timely now)
    (k : K) :
    (c.purge now).1.found? k =
      (c.found? k).filter (c.isLive now) := by
  have hWhole := hTimely.whole
  have hWhole' := (c.follows_purge now).whole hWhole
  rcases hTimely with ⟨order, age, h, hDated⟩
  have hEntries := h.entries_purge hDated now
  have hMem :
      ∀ e, (c.purge now).1.found? e.key = some e ↔
        c.found? e.key = some e ∧ c.isLive now e = true := by
    intro e
    rw [← hWhole'.mem_entries_iff, ← hWhole.mem_entries_iff,
      hEntries, List.mem_filter]
  apply Option.ext
  intro e
  rw [Option.filter_eq_some_iff]
  constructor
  · intro hFound
    have hKey := hWhole'.found?_key hFound
    subst hKey
    exact (hMem e).mp hFound
  · rintro ⟨hFound, hLive⟩
    have hKey := hWhole.found?_key hFound
    subst hKey
    exact (hMem e).mpr ⟨hFound, hLive⟩

------------------------------------------------------------
-- Losses
------------------------------------------------------------

namespace Forgets

theorem refl
    (hTimely : c.Timely now)
    (hRoom : c.stored ≤ c.capacity) :
    c.Forgets c now where
  timely := hTimely
  timely' := hTimely
  capacity_eq := rfl
  ttl_eq := rfl
  room := hRoom
  found := fun _ => .inl rfl

/- The keys that are left are among those of the other. -/
theorem isSome_found?
    (h : c.Forgets d now)
    {k : K}
    (hSome : (d.found? k).isSome) :
    (c.found? k).isSome := by
  rcases h.found k with hSame | ⟨hNone, _⟩
  · have hMapped := congrArg Option.isSome hSame
    rw [Option.isSome_map, Option.isSome_map] at hMapped
    rw [← hMapped]
    exact hSome
  · rw [hNone] at hSome
    contradiction

/- What lives is the same. -/
theorem live?_eq
    (h : c.Forgets d now)
    (k : K) :
    (d.live? now k).map Entry.stamp =
      (c.live? now k).map Entry.stamp := by
  rw [live?_eq_filter, live?_eq_filter]
  rcases h.found k with hSame | ⟨hNone, hDead⟩
  · exact filter_isLive_stamp h.ttl_eq hSame now
  · rw [hNone, hDead]
    rfl

/- Both caches have come on by steps of their own. -/
theorem follow
    (h : c.Forgets d last)
    (hLater : last ≤ now)
    (hFollows : c.Follows c' now)
    (hFollows' : d.Follows d' now)
    (hRoom : c'.stored ≤ c'.capacity)
    (hFound :
      ∀ k,
        (d'.found? k).map Entry.stamp =
            (c'.found? k).map Entry.stamp ∨
          (d'.found? k = none ∧
            (c'.found? k).filter (c.isLive now) = none)) :
    c'.Forgets d' now where
  timely := hFollows.timely h.timely hLater
  timely' := hFollows'.timely h.timely' hLater
  capacity_eq := by
    rw [hFollows'.capacity_eq, hFollows.capacity_eq,
      h.capacity_eq]
  ttl_eq := by
    rw [hFollows'.ttl_eq, hFollows.ttl_eq, h.ttl_eq]
  room := hRoom
  found := by
    rw [hFollows.isLive_eq now]
    exact hFound

/- The room is kept where no key is added. -/
theorem room_of_follows
    (h : c.Forgets d last)
    (hFollows : c.Follows c' now)
    (hFound :
      ∀ k, (c'.found? k).isSome → (c.found? k).isSome) :
    c'.stored ≤ c'.capacity := by
  have hWhole := h.timely.whole
  have hStored :=
    stored_le_of_found? hWhole (hFollows.whole hWhole) hFound
  have hRoom := h.room
  rw [hFollows.capacity_eq]
  omega

/- Time goes on. -/
theorem later
    (h : c.Forgets d last)
    (hLater : last ≤ now) :
    c.Forgets d now := by
  apply h.follow hLater (Follows.refl c now) (Follows.refl d now)
    h.room
  intro k
  rcases h.found k with hSame | ⟨hNone, hDead⟩
  · exact .inl hSame
  · refine .inr ⟨hNone, ?_⟩
    rw [Option.filter_eq_none_iff] at hDead ⊢
    intro e hFound hLive
    exact hDead e hFound (isLive_of_later hLater hLive)

/- What has been lost is not counted by a purge. -/
theorem purge_le
    (h : c.Forgets d now) :
    (d.purge now).2 ≤ (c.purge now).2 := by
  have hWhole := h.timely.whole
  have hWhole' := h.timely'.whole
  rcases h.timely with ⟨order, age, hHolds, hDated⟩
  rcases h.timely' with ⟨order', age', hHolds', hDated'⟩
  have hCount := hHolds.length_expiredSlots hDated now
  have hCount' :=
    hHolds'.length_expiredSlots hDated' now
  change
    (d.expiredSlots now).length ≤ (c.expiredSlots now).length
  rw [hCount, hCount']
  apply length_le_of_keys
  · exact hHolds'.nodup_keys.sublist
      (List.filter_sublist.map Entry.key)
  · intro f hMem
    rcases List.mem_filter.mp hMem with ⟨hMem, hDead⟩
    rw [hWhole'.mem_entries_iff] at hMem
    rcases h.found f.key with hSame | ⟨hNone, _⟩
    · rw [hMem] at hSame
      rcases Option.map_eq_some_iff.mp hSame.symm with
        ⟨e, hFound, hStamp⟩
      have hKey := hWhole.found?_key hFound
      have hTime : e.insertedAt = f.insertedAt :=
        congrArg Prod.snd hStamp
      refine ⟨e, List.mem_filter.mpr ⟨?_, ?_⟩, hKey⟩
      · rw [hWhole.mem_entries_iff, hKey, hFound]
      · unfold isLive at hDead ⊢
        rw [hTime, ← h.ttl_eq]
        exact hDead
    · rw [hMem] at hNone
      contradiction

/- A value is changed in both caches. -/
theorem modify
    [DecidableEq K]
    (h : c.Forgets d now)
    (k : K)
    (f : V → V) :
    (c.modify k f).Forgets (d.modify k f) now := by
  have hModified := found?_modify h.timely.whole k f
  have hModified' := found?_modify h.timely'.whole k f
  have hFollows := c.follows_modify k f now
  have hStamp :
      ∀ x : Option (Entry K V),
        (x.map fun e => { e with value := f e.value }).map
            Entry.stamp =
          (x.map Entry.stamp).map fun s => (f s.1, s.2) := by
    intro x
    rw [Option.map_map, Option.map_map]
    rfl
  apply h.follow (le_refl now) hFollows
    (d.follows_modify k f now)
  · apply h.room_of_follows hFollows
    intro k' hSome
    rw [hModified] at hSome
    by_cases hSame : k' = k
    · rw [if_pos hSame, Option.isSome_map] at hSome
      rw [hSame]
      exact hSome
    · rw [if_neg hSame] at hSome
      exact hSome
  · intro k'
    rw [hModified, hModified']
    by_cases hKey : k' = k
    · rw [if_pos hKey, if_pos hKey, hStamp, hStamp]
      rcases h.found k with hSame | ⟨hNone, hDead⟩
      · exact .inl (by rw [hSame])
      · refine .inr ⟨by rw [hNone]; rfl, ?_⟩
        rw [Option.filter_map]
        exact congrArg (Option.map _) hDead
    · rw [if_neg hKey, if_neg hKey]
      exact h.found k'

/- What the other cache has is written there again. -/
theorem modifyAgain
    [DecidableEq K]
    (h : c.Forgets d now)
    {k : K}
    {v : V}
    (hValue : ∀ e, d.found? k = some e → e.value = v) :
    c.Forgets (d.modify k fun _ => v) now := by
  apply h.follow (le_refl now) (Follows.refl c now)
    (d.follows_modify k (fun _ => v) now) h.room
  intro k'
  have hSame :
      (d.modify k fun _ => v).found? k' = d.found? k' := by
    rw [found?_modify h.timely'.whole]
    by_cases hKey : k' = k
    · rw [if_pos hKey, hKey]
      cases hFound : d.found? k with
      | none => rfl
      | some e =>
          rw [← hValue e hFound]
          rfl
    · rw [if_neg hKey]
  rw [hSame]
  exact h.found k'

variable [Std.LawfulEqOrd K]

theorem purge
    (h : c.Forgets d now) :
    (c.purge now).1.Forgets (d.purge now).1 now := by
  have hFollows := c.follows_purge now
  apply h.follow (le_refl now) hFollows (d.follows_purge now)
  · apply h.room_of_follows hFollows
    intro k
    exact (fades_purge h.timely.whole now).isSome_found?
  · intro k
    left
    rw [found?_purge h.timely, found?_purge h.timely',
      ← live?_eq_filter, ← live?_eq_filter]
    exact h.live?_eq k

variable [DecidableEq K]

/- Both caches are asked for a key. -/
theorem get
    (h : c.Forgets d now)
    (k : K) :
    (c.get now k).1.Forgets (d.get now k).1 now := by
  have hGot := found?_get h.timely.whole now k
  have hGot' := found?_get h.timely'.whole now k
  have hFollows := c.follows_get now k
  apply h.follow (le_refl now) hFollows (d.follows_get now k)
  · apply h.room_of_follows hFollows
    intro k'
    exact (fades_get h.timely.whole now k).isSome_found?
  · intro k'
    rw [hGot, hGot']
    by_cases hKey : k' = k
    · rw [if_pos hKey, if_pos hKey, Option.map_map,
        Option.map_map]
      exact .inl (h.live?_eq k)
    · rw [if_neg hKey, if_neg hKey]
      exact h.found k'

/- Only the cache that has lost entries is asked for a key. -/
theorem getAgain
    (h : c.Forgets d now)
    (k : K) :
    c.Forgets (d.get now k).1 now := by
  have hGot := found?_get h.timely'.whole now k
  apply h.follow (le_refl now) (Follows.refl c now)
    (d.follows_get now k) h.room
  intro k'
  rw [hGot]
  by_cases hKey : k' = k
  · rw [if_pos hKey, hKey, Option.map_map]
    have hLive := h.live?_eq k
    rw [live?_eq_filter c] at hLive
    cases hFound : (c.found? k).filter (c.isLive now) with
    | none =>
        rw [hFound, Option.map_none,
          Option.map_eq_none_iff] at hLive
        exact .inr ⟨by rw [hLive]; rfl, rfl⟩
    | some e =>
        left
        rw [(Option.filter_eq_some_iff.mp hFound).1]
        rw [hFound] at hLive
        exact hLive
  · rw [if_neg hKey]
    exact h.found k'

/- A value is put in both caches, and there is room. -/
theorem put
    (h : c.Forgets d now)
    {k : K}
    {v : V}
    (hNone : (c.put now k v).2 = 0) :
    (c.put now k v).1.Forgets (d.put now k v).1 now := by
  have hWhole := h.timely.whole
  have hWhole' := h.timely'.whole
  have hFollows := c.follows_put now k v
  have hPut :=
    found?_put hWhole now k v (hWhole.room_of_put hNone)
  have hRoom :
      (c.put now k v).1.stored ≤ (c.put now k v).1.capacity := by
    cases hIndex : c.index[k]? with
    | none =>
        have hEnough := hWhole.room_of_put hNone hIndex
        rw [hFollows.capacity_eq, put_of_room c hIndex hEnough]
        exact hEnough
    | some i =>
        rw [put_stored c hIndex]
        exact h.room
  have hPut' :
      ∀ k', (d.put now k v).1.found? k' =
        if k' = k then some ⟨k, v, now, now⟩ else d.found? k' := by
    apply found?_put hWhole' now k v
    intro hNew
    have hEntered :=
      found?_enter (e := ⟨k, v, now, now⟩) hWhole' hNew
    have hFewer :=
      stored_le_of_found? (hFollows.whole hWhole)
        ((d.follows_enter (e := ⟨k, v, now, now⟩)
          hNew).whole hWhole') (fun k' hSome => by
            rw [hEntered] at hSome
            rw [hPut]
            by_cases hKey : k' = k
            · rw [if_pos hKey]
              rfl
            · rw [if_neg hKey] at hSome ⊢
              exact h.isSome_found? hSome)
    rw [hFollows.capacity_eq, ← h.capacity_eq] at hRoom
    exact hFewer.trans hRoom
  apply h.follow (le_refl now) hFollows (d.follows_put now k v)
    hRoom
  intro k'
  rw [hPut, hPut']
  by_cases hKey : k' = k
  · rw [if_pos hKey, if_pos hKey]
    exact .inl rfl
  · rw [if_neg hKey, if_neg hKey]
    exact h.found k'

end Forgets

end Cache

end OrderWatch
