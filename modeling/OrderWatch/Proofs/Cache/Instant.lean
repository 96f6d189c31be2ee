import OrderWatch.Proofs.Cache.Loss

/-
  What a cache shows at one instant.

  Under a key a cache shows a value, and since when it has
  been there, if the entry of the key lives.  How entries
  have been used does not show, nor which expired ones still
  lie in the slots.  Every operation does something to what
  shows that can be told from this alone.  Nothing here asks
  whether the clock has gone back before, so the expired
  entries need not be those at the old end.

  Main declarations:
    * `Cache.shown?`, `Cache.get_shown`
    * `Cache.shown?_get`, `Cache.shown?_purge`
    * `Cache.shown?_modify`, `Cache.shown?_put`
    * `Cache.shown?_later`, `Cache.shown?_of_ttl_zero`
    * `Cache.liveEntries_put_front`
-/

namespace OrderWatch

namespace Cache

variable {K V : Type} [Ord K] [Std.TransOrd K]
variable {c : Cache K V} {order age : List Nat}
variable {last now : Nat}

/- What lives under a key, and since when. -/
def shown? (c : Cache K V) (now : Nat) (k : K) : Option (V × Nat) :=
  (c.live? now k).map Entry.stamp

theorem shown?_eq_filter
    (c : Cache K V)
    (now : Nat)
    (k : K) :
    c.shown? now k =
      ((c.found? k).filter (c.isLive now)).map Entry.stamp := by
  unfold shown?
  rw [live?_eq_filter]

/- A look-up answers what shows. -/
theorem get_shown
    (c : Cache K V)
    (now : Nat)
    (k : K) :
    (c.get now k).2 = (c.shown? now k).map Prod.fst := by
  unfold shown?
  rw [get_answer, Option.map_map]
  rfl

/- What shows goes by age, and nothing else comes up. -/
theorem shown?_later
    (hLater : last ≤ now)
    (k : K) :
    c.shown? now k =
      (c.shown? last k).filter fun s => now - s.2 < c.ttl := by
  rw [shown?_eq_filter, shown?_eq_filter, Option.filter_map]
  congr 1
  cases c.found? k with
  | none => rfl
  | some e =>
      rw [Option.filter_some, Option.filter_some]
      cases hLive : c.isLive now e with
      | true =>
          rw [if_pos rfl, isLive_of_later hLater hLive, if_pos rfl]
          exact (Option.filter_some_pos hLive).symm
      | false =>
          rw [if_neg (by decide)]
          split
          · have hDead :
                ((fun s : V × Nat => decide (now - s.2 < c.ttl)) ∘
                  Entry.stamp) e = false :=
              hLive
            exact (Option.filter_some_neg hDead).symm
          · rfl

/- If entries do not live at all, nothing shows. -/
theorem shown?_of_ttl_zero
    (hTtl : c.ttl = 0)
    (now : Nat)
    (k : K) :
    c.shown? now k = none := by
  rw [shown?_later (le_refl now), hTtl, Option.filter_eq_none_iff]
  intro s _ hLives
  simp at hLives

------------------------------------------------------------
-- Purges
------------------------------------------------------------

/- Only expired entries lie in the slots that a purge empties. -/
theorem Holds.isExpired_of_mem
    (h : c.Holds order age)
    {i : Nat}
    (hMem : i ∈ c.expiredSlots now) :
    c.isExpired now i = true := by
  unfold expiredSlots at hMem
  rw [h.spells_age.backwardWhile_eq] at hMem
  exact List.mem_takeWhile_imp hMem

/- The slot of an entry that lives is not emptied. -/
theorem Holds.not_mem_expiredSlots
    (h : c.Holds order age)
    {i : Nat}
    {e : Entry K V}
    (hEntry : c.entry? i = some e)
    (hLive : c.isLive now e = true) :
    i ∉ c.expiredSlots now := by
  intro hMem
  have hExpired := h.isExpired_of_mem hMem
  unfold isExpired at hExpired
  rw [hEntry, Option.any_some, hLive] at hExpired
  contradiction

variable [Std.LawfulEqOrd K]

theorem live?_purge
    (hWhole : c.Whole)
    (k : K) :
    (c.purge now).1.live? now k = c.live? now k := by
  have hWhole' := (c.follows_purge now).whole hWhole
  have hHolds := hWhole
  rcases hHolds with ⟨order, age, h⟩
  rw [live?_eq_filter, live?_eq_filter,
    (c.follows_purge now).isLive_eq]
  rcases sheds_purge hWhole now k with hNone | hSame
  · rw [hNone, Option.filter_none, eq_comm,
      Option.filter_eq_none_iff]
    intro e hFound hLive
    rcases (hWhole.found?_eq_some k e).mp hFound with
      ⟨i, hEntry, hKey⟩
    have hStays :
        Cache.entry? (c.purge now).1 i = some e := by
      change
        Cache.entry? ((c.expiredSlots now).foldl drop c) i = _
      rw [entry?_dropAll,
        if_neg (h.not_mem_expiredSlots hEntry hLive), hEntry]
    have hThere :=
      (hWhole'.found?_eq_some k e).mpr ⟨i, hStays, hKey⟩
    rw [hNone] at hThere
    contradiction
  · rw [hSame]

/- A purge does not show. -/
theorem shown?_purge
    (hWhole : c.Whole)
    (k : K) :
    (c.purge now).1.shown? now k = c.shown? now k := by
  unfold shown?
  rw [live?_purge hWhole]

------------------------------------------------------------
-- Other operations
------------------------------------------------------------

section Keys

variable [DecidableEq K]

/- A look-up does not show. -/
theorem shown?_get
    (hWhole : c.Whole)
    (k' k : K) :
    (c.get now k').1.shown? now k = c.shown? now k := by
  rw [shown?_eq_filter, (c.follows_get now k').isLive_eq,
    found?_get hWhole]
  by_cases hSame : k = k'
  · subst hSame
    rw [if_pos rfl, live?_eq_filter, shown?_eq_filter]
    cases c.found? k with
    | none => rfl
    | some e =>
        rw [Option.filter_some]
        split
        · rename_i hLive
          have hUsed :
              c.isLive now { e with lastAccess := now } =
                true :=
            hLive
          rw [Option.map_some, Option.filter_some, if_pos hUsed]
          rfl
        · rfl
  · rw [if_neg hSame, shown?_eq_filter]

omit [Std.LawfulEqOrd K] in
/- A value that is changed shows at once, if anything does. -/
theorem shown?_modify
    (hWhole : c.Whole)
    (k' : K)
    (f : V → V)
    (k : K) :
    (c.modify k' f).shown? now k =
      if k = k' then
        (c.shown? now k').map fun s => (f s.1, s.2)
      else
        c.shown? now k := by
  rw [shown?_eq_filter, (c.follows_modify k' f now).isLive_eq,
    found?_modify hWhole]
  by_cases hSame : k = k'
  · rw [if_pos hSame, if_pos hSame, shown?_eq_filter]
    cases c.found? k' with
    | none => rfl
    | some e =>
        rw [Option.map_some, Option.filter_some,
          Option.filter_some]
        change
          Option.map Entry.stamp
              (if c.isLive now e = true then _ else none) = _
        split <;> rfl
  · rw [if_neg hSame, if_neg hSame, shown?_eq_filter]

/-
  A put that pushes nothing out only adds what is put, if
  entries live for any time.
-/
theorem shown?_put
    (hWhole : c.Whole)
    {k' : K}
    {v : V}
    (hNone : (c.put now k' v).2 = 0)
    (k : K) :
    (c.put now k' v).1.shown? now k =
      if k = k' then
        if 0 < c.ttl then some (v, now) else none
      else
        c.shown? now k := by
  have hLive :
      c.isLive now ⟨k', v, now, now⟩ = decide (0 < c.ttl) := by
    simp [isLive]
  rw [shown?_eq_filter, (c.follows_put now k' v).isLive_eq,
    found?_put hWhole now k' v (hWhole.room_of_put hNone)]
  by_cases hSame : k = k'
  · rw [if_pos hSame, if_pos hSame, Option.filter_some, hLive]
    by_cases hTtl : 0 < c.ttl
    · simp [hTtl, Entry.stamp]
    · simp [hTtl]
  · rw [if_neg hSame, if_neg hSame, shown?_eq_filter]

end Keys

------------------------------------------------------------
-- What is put last
------------------------------------------------------------

/- An entry on top that lives stays there when room is made. -/
theorem Holds.entries_shrink_front
    {i : Nat}
    {e : Entry K V}
    (h : c.Holds (i :: order) age)
    (hEntry : c.entry? i = some e)
    (hLive : c.isLive now e = true)
    (hCapacity : 0 < c.capacity) :
    ∃ rest, (c.shrink now).entries = e :: rest := by
  unfold shrink
  split
  · have hKept := h.not_mem_expiredSlots hEntry hLive
    have hPurged : (c.purge now).1.Holds _ _ :=
      h.dropAll (c.expiredSlots now)
    rw [List.filter_cons_of_pos (by simpa using hKept)]
      at hPurged
    have hStays : Cache.entry? (c.purge now).1 i = some e := by
      change
        Cache.entry? ((c.expiredSlots now).foldl Cache.drop c)
          i = _
      rw [entry?_dropAll, if_neg hKept, hEntry]
    have hTop := hPurged.entries_eq
    rw [List.filterMap_cons_some hStays] at hTop
    have hStored := hPurged.stored_entries
    have hRoom := (c.follows_purge now).capacity_eq
    -- As many entries are left as there is room for, or all.
    have hLeft :
        ∃ n,
          (c.purge now).1.entries.length -
              ((c.purge now).1.stored -
                (c.purge now).1.capacity) = n + 1 := by
      rw [hTop, List.length_cons] at hStored ⊢
      exact Nat.exists_eq_succ_of_ne_zero (by omega)
    rcases hLeft with ⟨n, hLeft⟩
    rw [hPurged.entries_evict, hLeft, hTop]
    exact ⟨_, List.take_succ_cons⟩
  · refine ⟨order.filterMap c.entry?, ?_⟩
    rw [h.entries_eq, List.filterMap_cons_some hEntry]

/- What is put is the living entry that was used last. -/
theorem liveEntries_put_front
    (hWhole : c.Whole)
    (hCapacity : 0 < c.capacity)
    (hTtl : 0 < c.ttl)
    (now : Nat)
    (k : K)
    (v : V) :
    ∃ rest,
      (c.put now k v).1.liveEntries now =
        ⟨k, v, now, now⟩ :: rest := by
  have hFollows := c.follows_put now k v
  have hLive : c.isLive now ⟨k, v, now, now⟩ = true := by
    simpa [isLive] using hTtl
  have hTop :
      ∃ rest,
        (c.put now k v).1.entries = ⟨k, v, now, now⟩ :: rest := by
    rcases hWhole with ⟨order, age, h⟩
    cases hIndex : c.index[k]? with
    | some i =>
        rcases h.put_stored hIndex now v with ⟨hPut, hOwn, _⟩
        rw [hPut.entries_eq, List.filterMap_cons_some hOwn]
        exact ⟨_, rfl⟩
    | none =>
        have hEntered :=
          c.follows_enter (e := ⟨k, v, now, now⟩) hIndex
        rcases h.enter (e := ⟨k, v, now, now⟩) hIndex with
          ⟨i, _, hHeld, hEntry⟩
        have hOwn :
            Cache.entry? (c.enter ⟨k, v, now, now⟩) i =
              some ⟨k, v, now, now⟩ := by
          rw [hEntry, if_pos rfl]
        rw [put_new c hIndex]
        exact
          hHeld.entries_shrink_front hOwn
            (by rw [hEntered.isLive_eq, hLive])
            (by rw [hEntered.capacity_eq]; exact hCapacity)
  rcases hTop with ⟨rest, hTop⟩
  change
    ∃ rest,
      (c.put now k v).1.entries.filter
          ((c.put now k v).1.isLive now) = _ :: rest
  rw [hTop, hFollows.isLive_eq, List.filter_cons_of_pos hLive]
  exact ⟨_, rfl⟩

end Cache

end OrderWatch
