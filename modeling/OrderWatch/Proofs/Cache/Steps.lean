import OrderWatch.Proofs.Cache.Ages

/-
  The steps of a cache.

  Whatever is done to a cache keeps its parts together, and
  keeps it dated if the time has not gone back.

  Main declarations:
    * `Cache.Follows`
    * `Cache.follows_put`, `Cache.follows_get`
    * `Cache.follows_remove`, `Cache.follows_purge`
    * `Cache.Holds.put_stored`, `Cache.Holds.get_live`
-/

namespace OrderWatch

namespace Cache

variable {K V : Type} [Ord K] [Std.TransOrd K]

------------------------------------------------------------
-- Steps of a cache
------------------------------------------------------------

/-
  A cache that has come from another at some time: it is made
  alike, its parts hold together if those of the other did,
  and it is dated if the other was.
-/
structure Follows (c d : Cache K V) (now : Nat) : Prop where
  capacity_eq : d.capacity = c.capacity
  ttl_eq : d.ttl = c.ttl
  held :
    ∀ order age, c.Holds order age →
      ∃ order' age', d.Holds order' age' ∧
        ∀ last, last ≤ now → c.Dated age last →
          d.Dated age' now

namespace Follows

variable {c d e : Cache K V} {now : Nat}

theorem refl
    (c : Cache K V)
    (now : Nat) :
    c.Follows c now where
  capacity_eq := rfl
  ttl_eq := rfl
  held := by
    intro order age h
    refine ⟨order, age, h, ?_⟩
    intro last hLater hDated
    exact hDated.later hLater

theorem trans
    (hFirst : c.Follows d now)
    (hSecond : d.Follows e now) :
    c.Follows e now where
  capacity_eq := hSecond.capacity_eq.trans hFirst.capacity_eq
  ttl_eq := hSecond.ttl_eq.trans hFirst.ttl_eq
  held := by
    intro order age h
    rcases hFirst.held order age h with
      ⟨order₁, age₁, h₁, hDated₁⟩
    rcases hSecond.held order₁ age₁ h₁ with
      ⟨order₂, age₂, h₂, hDated₂⟩
    refine ⟨order₂, age₂, h₂, ?_⟩
    intro last hLater hDated
    exact hDated₂ now (le_refl now) (hDated₁ last hLater hDated)

/- Caches made alike agree on which entries live. -/
theorem isLive_eq
    (h : c.Follows d now)
    (time : Nat) :
    d.isLive time = c.isLive time := by
  funext e
  unfold isLive
  rw [h.ttl_eq]

end Follows

theorem follows_modify
    (c : Cache K V)
    (k : K)
    (f : V → V)
    (now : Nat) :
    c.Follows (c.modify k f) now := by
  cases hIndex : c.index[k]? with
  | none =>
      unfold modify
      rw [hIndex]
      exact Follows.refl c now
  | some i =>
      have hModify :
          c.modify k f =
            c.modifySlot i fun e =>
              { e with value := f e.value } := by
        unfold modify
        rw [hIndex]
      rw [hModify]
      refine
        { capacity_eq := rfl
          ttl_eq := rfl
          held := ?_ }
      intro order age h
      refine ⟨_, _, h.modifySlot i (fun _ => rfl), ?_⟩
      intro last hLater hDated
      apply (hDated.later hLater).sublist
      apply times_sublist (List.Sublist.refl age)
      intro j _
      rw [entry?_modifySlot]
      by_cases hSame : j = i
      · subst j
        simp [Function.comp_def]
      · rw [if_neg hSame]

------------------------------------------------------------
-- Entries put and looked up
------------------------------------------------------------

/- A value put under a key that is stored. -/
theorem put_stored
    (c : Cache K V)
    {k : K}
    {i : Nat}
    (hIndex : c.index[k]? = some i)
    (now : Nat)
    (v : V) :
    c.put now k v =
      ({ c.modifySlot i fun e => ⟨e.key, v, now, now⟩ with
          recency := c.recency.toFront i
          age := (c.age.detach i).pushFront i },
        0) := by
  unfold put
  rw [hIndex]
  rfl

/- A value put under a key that is not stored. -/
theorem put_new
    (c : Cache K V)
    {k : K}
    (hIndex : c.index[k]? = none)
    (now : Nat)
    (v : V) :
    c.put now k v =
      let d := c.enter ⟨k, v, now, now⟩
      (d.shrink now, d.stored - (d.shrink now).stored) := by
  unfold put
  rw [hIndex]
  rfl

/-
  The cache after a put under a key that is stored: its slot
  has moved to the front of both lists.
-/
theorem Holds.put_stored
    {c : Cache K V}
    {order age : List Nat}
    (h : c.Holds order age)
    {k : K}
    {i : Nat}
    (hIndex : c.index[k]? = some i)
    (now : Nat)
    (v : V) :
    (c.put now k v).1.Holds
        (i :: order.filter (· ≠ i)) (i :: age.filter (· ≠ i)) ∧
      Cache.entry? (c.put now k v).1 i = some ⟨k, v, now, now⟩ ∧
      ∀ j, j ≠ i →
        Cache.entry? (c.put now k v).1 j = c.entry? j := by
  rcases h.entry?_of_index hIndex with ⟨e, hEntry, hKey⟩
  have hMem : i ∈ order := by
    simp [h.occupied, hEntry]
  have hChanged :=
    h.modifySlot i (f := fun e => ⟨e.key, v, now, now⟩)
      (fun _ => rfl)
  have hAt :
      ∀ j, Cache.entry? (c.put now k v).1 j =
        if j = i then
          (c.entry? i).map fun e => ⟨e.key, v, now, now⟩
        else c.entry? j := by
    intro j
    rw [Cache.put_stored c hIndex, ← entry?_modifySlot]
    rfl
  refine ⟨?_, ?_, ?_⟩
  · rw [Cache.put_stored c hIndex]
    exact (hChanged.toFront hMem).toNewest (by simp)
  · rw [hAt, if_pos rfl, hEntry, ← hKey]
    rfl
  · intro j hOther
    rw [hAt, if_neg hOther]

/- The entry of a key that lives has been used. -/
theorem get_live
    (c : Cache K V)
    {k : K}
    {i now : Nat}
    (hIndex : c.index[k]? = some i)
    (hLive : c.isExpired now i = false) :
    c.get now k =
      (({ c with recency := c.recency.toFront i }).modifySlot i
          fun e => { e with lastAccess := now },
        (c.entry? i).map Entry.value) := by
  unfold get
  simp only [hIndex, hLive]
  rfl

/- The entry of a key that has expired is dropped. -/
theorem get_expired
    (c : Cache K V)
    {k : K}
    {i now : Nat}
    (hIndex : c.index[k]? = some i)
    (hExpired : c.isExpired now i = true) :
    c.get now k = (c.drop i, none) := by
  unfold get
  simp only [hIndex, hExpired]
  rfl

/-
  The cache after a look-up that has found something: the
  slot of the key has moved to the front.
-/
theorem Holds.get_live
    {c : Cache K V}
    {order age : List Nat}
    (h : c.Holds order age)
    {k : K}
    {i now : Nat}
    {e : Entry K V}
    (hIndex : c.index[k]? = some i)
    (hEntry : c.entry? i = some e)
    (hLive : c.isExpired now i = false) :
    (c.get now k).1.Holds (i :: order.filter (· ≠ i)) age ∧
      Cache.entry? (c.get now k).1 i =
        some { e with lastAccess := now } ∧
      ∀ j, j ≠ i →
        Cache.entry? (c.get now k).1 j = c.entry? j := by
  have hMem : i ∈ order := by
    simp [h.occupied, hEntry]
  have hAt :
      ∀ j, Cache.entry? (c.get now k).1 j =
        if j = i then
          (c.entry? i).map fun e => { e with lastAccess := now }
        else c.entry? j := by
    intro j
    rw [Cache.get_live c hIndex hLive, entry?_modifySlot]
    rfl
  refine ⟨?_, ?_, ?_⟩
  · rw [Cache.get_live c hIndex hLive]
    exact (h.toFront hMem).modifySlot i (fun _ => rfl)
  · rw [hAt, if_pos rfl, hEntry]
    rfl
  · intro j hOther
    rw [hAt, if_neg hOther]

------------------------------------------------------------
-- Steps that may drop entries
------------------------------------------------------------

variable [Std.LawfulEqOrd K]

theorem follows_drop
    (c : Cache K V)
    (i now : Nat) :
    c.Follows (c.drop i) now where
  capacity_eq := by
    unfold drop
    split <;> rfl
  ttl_eq := by
    unfold drop
    split <;> rfl
  held := by
    intro order age h
    refine ⟨_, _, h.drop i, ?_⟩
    intro last hLater hDated
    apply (hDated.later hLater).sublist
    apply times_sublist List.filter_sublist
    intro j hMem
    have hOther : j ≠ i := by
      simpa using (List.mem_filter.mp hMem).2
    rw [entry?_drop, if_neg hOther]

theorem follows_dropAll
    (c : Cache K V)
    (slots : List Nat)
    (now : Nat) :
    c.Follows (slots.foldl drop c) now := by
  induction slots generalizing c with
  | nil => exact Follows.refl c now
  | cons i slots ih =>
      exact (c.follows_drop i now).trans (ih (c.drop i))

theorem follows_evict
    (c : Cache K V)
    (n now : Nat) :
    c.Follows (evict n c) now := by
  induction n generalizing c with
  | zero => exact Follows.refl c now
  | succ n ih =>
      unfold evict
      split
      · rename_i i _
        exact (c.follows_drop i now).trans (ih (c.drop i))
      · exact Follows.refl c now

theorem follows_purge
    (c : Cache K V)
    (now : Nat) :
    c.Follows (c.purge now).1 now :=
  c.follows_dropAll (c.expiredSlots now) now

theorem follows_shrink
    (c : Cache K V)
    (now : Nat) :
    c.Follows (c.shrink now) now := by
  unfold shrink
  split
  · exact (c.follows_purge now).trans (follows_evict _ _ now)
  · exact Follows.refl c now

/- Room is made from the expired entries and the bottom. -/
theorem Holds.entries_shrink
    {c : Cache K V}
    {order age : List Nat}
    {last : Nat}
    (h : c.Holds order age)
    (hDated : c.Dated age last)
    (now : Nat) :
    (c.shrink now).entries =
      if c.entries.length > c.capacity then
        (c.entries.filter (c.isLive now)).take c.capacity
      else c.entries := by
  unfold shrink
  rw [h.stored_entries]
  by_cases hFull : c.entries.length > c.capacity
  · have hPurged := h.dropAll (c.expiredSlots now)
    have hCapacity := (c.follows_purge now).capacity_eq
    have hEntries :
        (c.purge now).1.entries =
          c.entries.filter (c.isLive now) :=
      h.entries_purge hDated now
    have hStored :
        (c.purge now).1.stored =
          (c.purge now).1.entries.length :=
      hPurged.stored_entries
    have hEvicted :
        ∀ n, (evict n (c.purge now).1).entries =
          (c.purge now).1.entries.take
            ((c.purge now).1.entries.length - n) :=
      fun n => hPurged.entries_evict n
    rw [if_pos hFull, if_pos hFull]
    simp only [hEvicted, hStored, hCapacity, hEntries]
    rw [List.take_eq_take_iff]
    omega
  · rw [if_neg hFull, if_neg hFull]

theorem follows_enter
    (c : Cache K V)
    {e : Entry K V}
    (hNew : c.index[e.key]? = none) :
    c.Follows (c.enter e) e.insertedAt where
  capacity_eq := by
    unfold enter allocate
    cases c.free <;> rfl
  ttl_eq := by
    unfold enter allocate
    cases c.free <;> rfl
  held := by
    intro order age h
    rcases h.enter hNew with ⟨i, hOut, hEntered, hEntry⟩
    refine ⟨_, _, hEntered, ?_⟩
    intro last hLater hDated
    have hOwn : Cache.entry? (c.enter e) i = some e := by
      rw [hEntry, if_pos rfl]
    apply hDated.newest hLater hOwn rfl
    apply times_sublist (List.Sublist.refl age)
    intro j hMem
    have hOther : j ≠ i := by
      intro hSame
      exact hOut ((h.mem_age i).mp (hSame ▸ hMem))
    rw [hEntry, if_neg hOther]

/- A put of a new key for which there is room. -/
theorem put_of_room
    (c : Cache K V)
    {k : K}
    (hNew : c.index[k]? = none)
    {now : Nat}
    {v : V}
    (hRoom :
      (c.enter ⟨k, v, now, now⟩).stored ≤ c.capacity) :
    c.put now k v = (c.enter ⟨k, v, now, now⟩, 0) := by
  have hFollows :=
    c.follows_enter (e := ⟨k, v, now, now⟩) hNew
  have hShrunk :
      (c.enter ⟨k, v, now, now⟩).shrink now =
        c.enter ⟨k, v, now, now⟩ := by
    rw [← hFollows.capacity_eq] at hRoom
    unfold shrink
    rw [if_neg (Nat.not_lt.mpr hRoom)]
  rw [put_new c hNew]
  simp only [hShrunk, Nat.sub_self]

theorem follows_put
    (c : Cache K V)
    (now : Nat)
    (k : K)
    (v : V) :
    c.Follows (c.put now k v).1 now := by
  cases hIndex : c.index[k]? with
  | none =>
      rw [put_new c hIndex]
      have hEntered :=
        c.follows_enter (e := ⟨k, v, now, now⟩) hIndex
      exact hEntered.trans (follows_shrink _ now)
  | some i =>
      refine
        { capacity_eq := by rw [put_stored c hIndex]; rfl
          ttl_eq := by rw [put_stored c hIndex]; rfl
          held := ?_ }
      intro order age h
      rcases h.put_stored hIndex now v with
        ⟨hPut, hOwn, hOthers⟩
      refine ⟨_, _, hPut, ?_⟩
      intro last hLater hDated
      apply hDated.newest hLater hOwn rfl
      apply times_sublist List.filter_sublist
      intro j hMem
      have hOther : j ≠ i := by
        simpa using (List.mem_filter.mp hMem).2
      rw [hOthers j hOther]

theorem follows_get
    (c : Cache K V)
    (now : Nat)
    (k : K) :
    c.Follows (c.get now k).1 now := by
  cases hIndex : c.index[k]? with
  | none =>
      unfold get
      rw [hIndex]
      exact Follows.refl c now
  | some i =>
      cases hExpired : c.isExpired now i with
      | true =>
          rw [get_expired c hIndex hExpired]
          exact c.follows_drop i now
      | false =>
          refine
            { capacity_eq := by
                rw [get_live c hIndex hExpired]
                rfl
              ttl_eq := by
                rw [get_live c hIndex hExpired]
                rfl
              held := ?_ }
          intro order age h
          rcases h.entry?_of_index hIndex with ⟨e, hEntry, _⟩
          rcases h.get_live hIndex hEntry hExpired with
            ⟨hGot, hOwn, hOthers⟩
          refine ⟨_, _, hGot, ?_⟩
          intro last hLater hDated
          apply (hDated.later hLater).sublist
          apply times_sublist (List.Sublist.refl age)
          intro j _
          by_cases hSame : j = i
          · rw [hSame, hOwn, hEntry]
            rfl
          · rw [hOthers j hSame]

theorem follows_remove
    (c : Cache K V)
    (now : Nat)
    (k : K) :
    c.Follows (c.remove now k).1 now := by
  unfold remove
  split
  · exact c.follows_drop _ now
  · exact Follows.refl c now

end Cache

end OrderWatch
