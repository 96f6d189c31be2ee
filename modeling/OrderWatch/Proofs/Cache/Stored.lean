import OrderWatch.Proofs.Cache.Instant

/-
  How many entries a cache stores.

  Entries come in by a put under a key that has none, and go
  out by a put, by a purge, or by a look-up that meets an
  expired one.  The number that a put or a purge answers is
  the number of those that have gone; a look-up does not
  answer how many it has dropped.  A put drops others only if
  the cache is full, and those that live only if they take up
  all the room themselves.

  Main declarations:
    * `Cache.Whole.stored_drop`
    * `Cache.Whole.stored_purge`
    * `Cache.Whole.stored_put`
    * `Cache.Whole.stored_get`
    * `Cache.Whole.full_of_put`
-/

namespace OrderWatch

namespace Cache

variable {K V : Type} [Ord K] [Std.TransOrd K]
variable {c : Cache K V}

/- Values are changed in their places. -/
theorem stored_modify
    (c : Cache K V)
    (k : K)
    (f : V → V) :
    (c.modify k f).stored = c.stored := by
  unfold modify
  split <;> rfl

/- The key of an entry that is met is indexed. -/
theorem Whole.isSome_entry?
    (hWhole : c.Whole)
    {k : K}
    {i : Nat}
    (hIndex : c.index[k]? = some i) :
    (c.entry? i).isSome := by
  rcases hWhole with ⟨order, age, h⟩
  rcases h.entry?_of_index hIndex with ⟨e, hEntry, _⟩
  rw [hEntry]
  rfl

variable [Std.LawfulEqOrd K]

/- An occupied slot that is emptied makes one entry less. -/
theorem Whole.stored_drop
    (hWhole : c.Whole)
    {i : Nat}
    (hFilled : (c.entry? i).isSome) :
    (c.drop i).stored + 1 = c.stored := by
  rcases hWhole with ⟨order, age, h⟩
  unfold stored
  rw [(h.drop i).stored_eq, h.stored_eq]
  exact
    Chain.length_filter_ne h.spells_order.nodup
      ((h.occupied i).mpr hFilled)

/- Occupied slots that are emptied, all different. -/
theorem Whole.stored_dropAll
    (hWhole : c.Whole)
    {slots : List Nat}
    (hNodup : slots.Nodup)
    (hFilled : ∀ i ∈ slots, (c.entry? i).isSome) :
    (slots.foldl drop c).stored + slots.length = c.stored := by
  induction slots generalizing c with
  | nil => rfl
  | cons i slots ih =>
      rcases List.nodup_cons.mp hNodup with ⟨hOut, hNodup⟩
      have hFirst := hWhole.stored_drop (hFilled i (by simp))
      have hRest :=
        ih ((c.follows_drop i 0).whole hWhole) hNodup (by
          intro j hMem
          have hOther : j ≠ i := by
            rintro rfl
            exact hOut hMem
          rw [entry?_drop, if_neg hOther]
          exact hFilled j (List.mem_cons_of_mem i hMem))
      rw [List.foldl_cons, List.length_cons]
      omega

/- A purge answers how many entries have gone. -/
theorem Whole.stored_purge
    (hWhole : c.Whole)
    (now : Nat) :
    (c.purge now).1.stored + (c.purge now).2 = c.stored := by
  have hHolds := hWhole
  rcases hHolds with ⟨order, age, h⟩
  have hSlots :
      (c.expiredSlots now).Sublist age.reverse := by
    unfold expiredSlots
    rw [h.spells_age.backwardWhile_eq]
    exact List.takeWhile_sublist _
  apply hWhole.stored_dropAll
  · exact hSlots.nodup (List.nodup_reverse.mpr h.spells_age.nodup)
  · intro i hMem
    rw [← h.occupied, ← h.mem_age]
    exact List.mem_reverse.mp (hSlots.subset hMem)

/- Making room does not add entries. -/
theorem Whole.stored_shrink
    (hWhole : c.Whole)
    (now : Nat) :
    (c.shrink now).stored ≤ c.stored := by
  by_cases hFull : c.stored > c.capacity
  · exact (hWhole.stored_shrink_le now).trans hFull.le
  · unfold shrink
    rw [if_neg hFull]

theorem Whole.stored_enter
    (hWhole : c.Whole)
    {e : Entry K V}
    (hNew : c.index[e.key]? = none) :
    (c.enter e).stored = c.stored + 1 := by
  rcases hWhole with ⟨order, age, h⟩
  rcases h.enter hNew with ⟨i, _, h', _⟩
  unfold stored
  rw [h'.stored_eq, h.stored_eq]
  rfl

/-
  A put answers how many entries have gone.  It has added one
  if there was none under its key, be it expired.
-/
theorem Whole.stored_put
    (hWhole : c.Whole)
    (now : Nat)
    (k : K)
    (v : V) :
    (c.put now k v).1.stored + (c.put now k v).2 =
      c.stored + if c.index.contains k then 0 else 1 := by
  rw [Std.ExtTreeMap.contains_eq_isSome_getElem?]
  cases hIndex : c.index[k]? with
  | some i =>
      rw [put_stored c hIndex]
      rfl
  | none =>
      let e : Entry K V := ⟨k, v, now, now⟩
      have hEntered : (c.enter e).stored = c.stored + 1 :=
        hWhole.stored_enter hIndex
      have hFewer :=
        ((c.follows_enter (e := e) hIndex).whole
          hWhole).stored_shrink now
      rw [put_new c hIndex]
      simp only [Option.isSome_none, Bool.false_eq_true,
        if_false]
      change
        ((c.enter e).shrink now).stored +
            ((c.enter e).stored -
              ((c.enter e).shrink now).stored) =
          c.stored + 1
      omega

/- A look-up that meets an expired entry drops it. -/
theorem Whole.stored_get
    (hWhole : c.Whole)
    (now : Nat)
    (k : K) :
    (c.get now k).1.stored +
        (if c.index[k]?.any (c.isExpired now) then 1 else 0) =
      c.stored := by
  cases hIndex : c.index[k]? with
  | none =>
      unfold get
      rw [hIndex]
      rfl
  | some i =>
      rw [Option.any_some]
      cases hExpired : c.isExpired now i with
      | true =>
          rw [get_expired c hIndex hExpired, if_pos rfl]
          exact
            hWhole.stored_drop (hWhole.isSome_entry? hIndex)
      | false =>
          rw [get_live c hIndex hExpired]
          rfl

------------------------------------------------------------
-- Puts that push others out
------------------------------------------------------------

variable {now : Nat}

/- A new entry does not keep the old ones from expiring. -/
theorem Whole.expiredSlots_enter
    (hWhole : c.Whole)
    {e : Entry K V}
    (hNew : c.index[e.key]? = none)
    (now : Nat) :
    (c.expiredSlots now).length ≤
      ((c.enter e).expiredSlots now).length := by
  have hLives := (c.follows_enter hNew).isLive_eq now
  rcases hWhole with ⟨order, age, h⟩
  rcases h.enter hNew with ⟨i, hOut, h', hEntry⟩
  have hStill :
      ∀ j ∈ c.expiredSlots now,
        Cache.isExpired (c.enter e) now j = true := by
    intro j hMem
    have hExpired := h.isExpired_of_mem hMem
    have hOther : j ≠ i := by
      rintro rfl
      unfold expiredSlots at hMem
      rw [h.spells_age.backwardWhile_eq] at hMem
      have hOld := (List.takeWhile_sublist _).subset hMem
      rw [List.mem_reverse, h.mem_age] at hOld
      exact hOut hOld
    unfold isExpired at hExpired ⊢
    rw [hEntry, if_neg hOther, hLives]
    exact hExpired
  unfold expiredSlots at hStill ⊢
  rw [h.spells_age.backwardWhile_eq] at hStill ⊢
  rw [h'.spells_age.backwardWhile_eq, List.reverse_cons]
  -- The expired slots are the first ones in both lists.
  conv_rhs =>
    rw [← List.takeWhile_append_dropWhile
      (p := c.isExpired now) (l := age.reverse)]
  rw [List.append_assoc, List.takeWhile_append_of_pos hStill,
    List.length_append]
  exact Nat.le_add_right _ _

variable [DecidableEq K]

/-
  A put pushes another entry out only if its key is new and
  the cache is full, and one that lives only if it is full of
  entries that a purge leaves.
-/
theorem Whole.full_of_put
    (hWhole : c.Whole)
    {k k' : K}
    {v : V}
    {e : Entry K V}
    (hOther : k' ≠ k)
    (hFound : c.found? k' = some e)
    (hGone : (c.put now k v).1.found? k' = none) :
    c.index[k]? = none ∧
      c.capacity ≤ c.stored ∧
      (c.isLive now e = true → c.capacity ≤ c.size now) := by
  cases hIndex : c.index[k]? with
  | some i =>
      rw [found?_put hWhole now k v (by simp [hIndex]),
        if_neg hOther, hFound] at hGone
      contradiction
  | none =>
      let f : Entry K V := ⟨k, v, now, now⟩
      have hFollows := c.follows_enter (e := f) hIndex
      have hWhole' := hFollows.whole hWhole
      have hCapacity := hFollows.capacity_eq
      have hEntered := hWhole.stored_enter (e := f) hIndex
      have hThere : (c.enter f).found? k' = some e := by
        rw [found?_enter hWhole hIndex, if_neg hOther, hFound]
      rw [put_new c hIndex] at hGone
      change ((c.enter f).shrink now).found? k' = none at hGone
      have hFull :
          (c.enter f).stored > (c.enter f).capacity := by
        by_contra hRoom
        unfold shrink at hGone
        rw [if_neg hRoom, hThere] at hGone
        contradiction
      refine ⟨rfl, by omega, ?_⟩
      intro hLive
      let p := ((c.enter f).purge now).1
      have hKept : p.found? k' = some e := by
        have hSame : p.live? now k' = (c.enter f).live? now k' :=
          live?_purge hWhole' k'
        rw [live?_eq_filter, live?_eq_filter, hThere,
          Option.filter_some, hFollows.isLive_eq,
          if_pos hLive] at hSame
        exact (Option.filter_eq_some_iff.mp hSame).1
      -- The purge has left it, so it has been evicted.
      have hStill : p.stored > p.capacity := by
        by_contra hRoom
        unfold shrink at hGone
        rw [if_pos hFull] at hGone
        change
          (evict (p.stored - p.capacity) p).found? k' = none
            at hGone
        rw [Nat.sub_eq_zero_of_le (by omega)] at hGone
        change p.found? k' = none at hGone
        rw [hKept] at hGone
        contradiction
      have hSame : p.capacity = (c.enter f).capacity :=
        ((c.enter f).follows_purge now).capacity_eq
      have hPurged := hWhole'.stored_purge now
      have hExpired :=
        hWhole.expiredSlots_enter (e := f) hIndex now
      change
        p.stored + ((c.enter f).expiredSlots now).length =
          (c.enter f).stored at hPurged
      unfold size
      omega

end Cache

end OrderWatch
