import OrderWatch.Proofs.Cache.Pile
import OrderWatch.Proofs.Cache.Steps

/-
  A cache answers like a pile.

  A cache refines a pile if it has the entries of the pile in
  the same order and its parts hold together.  Every request
  is answered alike and leaves a cache that refines the pile
  again, provided that the readings of the clock do not go
  back: only then are the expired entries those at the old
  end of the list of ages, where a purge looks for them.

  Main declarations:
    * `Cache.Refines`
    * `Cache.Refines.put`, `Cache.Refines.get`
    * `Cache.Refines.serve`
    * `Cache.replies_run_eq`
-/

namespace OrderWatch

namespace Cache

variable {K V : Type} [Ord K] [Std.TransOrd K]

------------------------------------------------------------
-- Entries after a step
------------------------------------------------------------

section Entries

variable {c : Cache K V} {order age : List Nat}

/- A value put under a stored key takes the place of the old. -/
theorem Holds.entries_put_stored
    [DecidableEq K]
    (h : c.Holds order age)
    {k : K}
    {i : Nat}
    (hIndex : c.index[k]? = some i)
    (now : Nat)
    (v : V) :
    (c.put now k v).1.entries =
      ⟨k, v, now, now⟩ ::
        c.entries.filter fun e => e.key ≠ k := by
  rcases h.entry?_of_index hIndex with ⟨e, hEntry, hKey⟩
  rcases h.put_stored hIndex now v with ⟨hPut, hOwn, hOthers⟩
  rw [h.entries_front hPut hEntry hOwn hOthers, hKey]

/- A look-up brings the entry of its key on top. -/
theorem Holds.entries_get_live
    [DecidableEq K]
    (h : c.Holds order age)
    {k : K}
    {i now : Nat}
    {e : Entry K V}
    (hIndex : c.index[k]? = some i)
    (hEntry : c.entry? i = some e)
    (hLive : c.isExpired now i = false) :
    (c.get now k).1.entries =
      { e with lastAccess := now } ::
        c.entries.filter fun d => d.key ≠ e.key := by
  rcases h.get_live hIndex hEntry hLive with
    ⟨hGot, hOwn, hOthers⟩
  exact h.entries_front hGot hEntry hOwn hOthers

end Entries

------------------------------------------------------------
-- Caches and piles
------------------------------------------------------------

/-
  A cache has the entries of a pile, and is dated by the last
  reading of the clock.
-/
structure Refines
    (c : Cache K V)
    (p : Pile K V)
    (last : Nat) : Prop where
  capacity_eq : p.capacity = c.capacity
  ttl_eq : p.ttl = c.ttl
  entries_eq : p.entries = c.entries
  held : ∃ order age, c.Holds order age ∧ c.Dated age last

theorem refines_empty
    (capacity ttl last : Nat) :
    (empty capacity ttl : Cache K V).Refines
      (Pile.empty capacity ttl) last where
  capacity_eq := rfl
  ttl_eq := rfl
  entries_eq := by
    rw [(holds_empty capacity ttl).entries_eq]
    rfl
  held :=
    ⟨[], [], holds_empty capacity ttl,
      List.pairwise_singleton _ last⟩

namespace Refines

variable {c : Cache K V} {p : Pile K V} {last now : Nat}

/- A step of the cache that the pile makes as well. -/
theorem follow
    (h : c.Refines p last)
    (hLater : last ≤ now)
    {d : Cache K V}
    {q : Pile K V}
    (hFollows : c.Follows d now)
    (hCapacity : q.capacity = p.capacity)
    (hTtl : q.ttl = p.ttl)
    (hEntries : q.entries = d.entries) :
    d.Refines q now where
  capacity_eq := by
    rw [hCapacity, hFollows.capacity_eq, h.capacity_eq]
  ttl_eq := by
    rw [hTtl, hFollows.ttl_eq, h.ttl_eq]
  entries_eq := hEntries
  held := by
    rcases h.held with ⟨order, age, hHolds, hDated⟩
    rcases hFollows.held order age hHolds with
      ⟨order', age', hHolds', hDated'⟩
    exact ⟨order', age', hHolds', hDated' last hLater hDated⟩

theorem later
    (h : c.Refines p last)
    (hLater : last ≤ now) :
    c.Refines p now :=
  h.follow hLater (Follows.refl c now) rfl rfl h.entries_eq

theorem isLive_eq
    (h : c.Refines p last)
    (now : Nat) :
    p.isLive now = c.isLive now := by
  funext e
  unfold Pile.isLive isLive
  rw [h.ttl_eq]

theorem living_eq
    (h : c.Refines p last)
    (now : Nat) :
    p.living now = c.entries.filter (c.isLive now) := by
  unfold Pile.living
  rw [h.isLive_eq, h.entries_eq]

------------------------------------------------------------
-- Requests that count the entries
------------------------------------------------------------

theorem stored_eq
    (h : c.Refines p last) :
    c.stored = p.entries.length := by
  rcases h.held with ⟨order, age, hHolds, _⟩
  rw [hHolds.stored_entries, h.entries_eq]

theorem size_eq
    (h : c.Refines p last)
    (now : Nat) :
    c.size now = (p.living now).length := by
  rcases h.held with ⟨order, age, hHolds, hDated⟩
  rw [h.living_eq, hHolds.size_eq hDated]

theorem isEmpty_eq
    (h : c.Refines p last)
    (now : Nat) :
    c.isEmpty now = (p.living now).isEmpty := by
  unfold isEmpty
  rw [h.size_eq]
  cases p.living now <;> rfl

------------------------------------------------------------
-- Requests about a key
------------------------------------------------------------

section Searches

variable [DecidableEq K]

/- The index leads to what the pile is searched for. -/
theorem find?_eq
    (h : c.Refines p last)
    (k : K) :
    p.find? k = c.index[k]?.bind c.entry? := by
  rcases h.held with ⟨order, age, hHolds, _⟩
  unfold Pile.find?
  rw [h.entries_eq, hHolds.find?_entries]

theorem live?_eq
    (h : c.Refines p last)
    (now : Nat)
    (k : K) :
    p.live? now k = c.live? now k := by
  unfold Pile.live? live?
  rw [h.find?_eq, h.isLive_eq]
  cases c.index[k]? with
  | none => rfl
  | some i => rfl

/- The pile has no entry of a key that is not stored. -/
theorem without_of_new
    (h : c.Refines p last)
    {k : K}
    (hIndex : c.index[k]? = none) :
    p.without k = p.entries := by
  have hNone := h.find?_eq k
  rw [hIndex, Option.bind_none] at hNone
  unfold Pile.find? at hNone
  unfold Pile.without
  rw [List.filter_eq_self]
  intro e hMem
  have hOther := List.find?_eq_none.mp hNone e hMem
  simpa using hOther

end Searches

------------------------------------------------------------
-- Requests that change the entries
------------------------------------------------------------

theorem clear
    (h : c.Refines p last)
    (now : Nat) :
    c.clear.Refines (Pile.empty p.capacity p.ttl) now := by
  rw [h.capacity_eq, h.ttl_eq]
  exact refines_empty c.capacity c.ttl now

variable [Std.LawfulEqOrd K]

theorem purge
    (h : c.Refines p last)
    (hLater : last ≤ now) :
    (c.purge now).1.Refines (p.purge now).1 now ∧
      (c.purge now).2 = (p.purge now).2 := by
  rcases h.held with ⟨order, age, hHolds, hDated⟩
  have hEntries :
      (c.purge now).1.entries =
        c.entries.filter (c.isLive now) :=
    hHolds.entries_purge hDated now
  constructor
  · apply h.follow hLater (c.follows_purge now)
    · rfl
    · rfl
    · rw [hEntries, ← h.living_eq]
      rfl
  · have hSplit :=
      List.length_eq_length_filter_add
        (l := c.entries) (c.isLive now)
    have hExpired :
        (c.expiredSlots now).length =
          (c.entries.filter fun e => !c.isLive now e).length :=
      hHolds.length_expiredSlots hDated now
    simp only [Cache.purge, Pile.purge, h.living_eq,
      h.entries_eq, hExpired]
    omega

/- Room is made in both alike. -/
theorem shrink
    (h : c.Refines p last)
    (hLater : last ≤ now) :
    (c.shrink now).Refines (p.shrink now) now := by
  rcases h.held with ⟨order, age, hHolds, hDated⟩
  have hEntries :
      (c.shrink now).entries =
        if c.entries.length > c.capacity then
          (c.entries.filter (c.isLive now)).take c.capacity
        else c.entries :=
    hHolds.entries_shrink hDated now
  apply h.follow hLater (c.follows_shrink now)
  · unfold Pile.shrink
    split <;> rfl
  · unfold Pile.shrink
    split <;> rfl
  · unfold Pile.shrink
    rw [hEntries, h.living_eq, h.entries_eq, h.capacity_eq]
    split
    · rfl
    · exact h.entries_eq

/- A new entry comes on top of both. -/
theorem enter
    (h : c.Refines p last)
    {e : Entry K V}
    (hLater : last ≤ e.insertedAt)
    (hNew : c.index[e.key]? = none) :
    (c.enter e).Refines { p with entries := e :: p.entries }
      e.insertedAt := by
  rcases h.held with ⟨order, age, hHolds, _⟩
  apply h.follow hLater (c.follows_enter hNew)
  · rfl
  · rfl
  · rw [hHolds.entries_enter hNew, h.entries_eq]

variable [DecidableEq K]

/- Emptying the slot of a key leaves the other keys. -/
theorem without_of_stored
    (h : c.Refines p last)
    {k : K}
    {i : Nat}
    (hIndex : c.index[k]? = some i) :
    p.without k = (c.drop i).entries := by
  rcases h.held with ⟨order, age, hHolds, _⟩
  rcases hHolds.entry?_of_index hIndex with ⟨e, hEntry, hKey⟩
  unfold Pile.without
  rw [h.entries_eq, hHolds.entries_drop hEntry, hKey]

theorem put
    (h : c.Refines p last)
    (hLater : last ≤ now)
    (k : K)
    (v : V) :
    (c.put now k v).1.Refines (p.put now k v).1 now ∧
      (c.put now k v).2 = (p.put now k v).2 := by
  rcases h.held with ⟨order, age, hHolds, hDated⟩
  have hFind := h.find?_eq k
  cases hIndex : c.index[k]? with
  | none =>
      have hEntered :=
        h.enter (e := ⟨k, v, now, now⟩) hLater hIndex
      have hShrunk := hEntered.shrink (le_refl now)
      rw [hIndex, Option.bind_none] at hFind
      rw [put_new c hIndex]
      simp only [Pile.put, hFind, h.without_of_new hIndex]
      refine ⟨hShrunk, ?_⟩
      rw [hEntered.stored_eq, hShrunk.stored_eq]
  | some i =>
      rcases hHolds.entry?_of_index hIndex with ⟨e, hEntry, _⟩
      rw [hIndex, Option.bind_some, hEntry] at hFind
      simp only [Pile.put, hFind]
      constructor
      · apply h.follow hLater (c.follows_put now k v)
        · rfl
        · rfl
        · rw [hHolds.entries_put_stored hIndex, ← h.entries_eq]
          rfl
      · rw [put_stored c hIndex]

theorem get
    (h : c.Refines p last)
    (hLater : last ≤ now)
    (k : K) :
    (c.get now k).1.Refines (p.get now k).1 now ∧
      (c.get now k).2 = (p.get now k).2 := by
  rcases h.held with ⟨order, age, hHolds, hDated⟩
  have hFind := h.find?_eq k
  have hFollows := c.follows_get now k
  cases hIndex : c.index[k]? with
  | none =>
      rw [hIndex, Option.bind_none] at hFind
      simp only [Cache.get, Pile.get, hIndex, hFind]
      exact ⟨h.later hLater, trivial⟩
  | some i =>
      rcases hHolds.entry?_of_index hIndex with
        ⟨e, hEntry, hKey⟩
      rw [hIndex, Option.bind_some, hEntry] at hFind
      have hExpired :
          c.isExpired now i = !p.isLive now e := by
        unfold isExpired
        rw [hEntry, h.isLive_eq]
        rfl
      cases hLive : p.isLive now e with
      | true =>
          rw [hLive] at hExpired
          have hEntries :=
            hHolds.entries_get_live hIndex hEntry hExpired
          simp only [Pile.get, hFind, hLive, if_true]
          constructor
          · apply h.follow hLater hFollows
            · rfl
            · rfl
            · rw [hEntries, hKey, ← h.entries_eq]
              rfl
          · rw [get_live c hIndex hExpired, hEntry]
            rfl
      | false =>
          rw [hLive] at hExpired
          rw [get_expired c hIndex hExpired] at hFollows ⊢
          simp only [Pile.get, hFind, hLive]
          refine ⟨?_, rfl⟩
          apply h.follow hLater hFollows
          · rfl
          · rfl
          · exact h.without_of_stored hIndex

theorem remove
    (h : c.Refines p last)
    (hLater : last ≤ now)
    (k : K) :
    (c.remove now k).1.Refines (p.remove now k).1 now ∧
      (c.remove now k).2 = (p.remove now k).2 := by
  have hFollows := c.follows_remove now k
  have hLive := h.live?_eq now k
  cases hIndex : c.index[k]? with
  | none =>
      have hRemoved : c.remove now k = (c, none) := by
        simp only [Cache.remove, hIndex]
      rw [hRemoved] at hFollows ⊢
      constructor
      · apply h.follow hLater hFollows
        · rfl
        · rfl
        · rw [← h.entries_eq]
          exact h.without_of_new hIndex
      · unfold live? at hLive
        rw [hIndex, Option.bind_none] at hLive
        simp only [Pile.remove, hLive, Option.map_none]
  | some i =>
      have hRemoved :
          c.remove now k = (c.drop i, c.peek now k) := by
        simp only [Cache.remove, hIndex]
      rw [hRemoved] at hFollows ⊢
      constructor
      · apply h.follow hLater hFollows
        · rfl
        · rfl
        · exact h.without_of_stored hIndex
      · simp only [Pile.remove, hLive]
        rfl

------------------------------------------------------------
-- All requests
------------------------------------------------------------

/- A request is answered alike. -/
theorem serve
    (h : c.Refines p last)
    (hLater : last ≤ now)
    (request : Request K V) :
    (c.serve now request).1.Refines (p.serve now request).1
        now ∧
      (c.serve now request).2 = (p.serve now request).2 := by
  have hStay := h.later hLater
  cases request with
  | put k v =>
      rcases h.put hLater k v with ⟨hPut, hDropped⟩
      exact ⟨hPut, congrArg Reply.count hDropped⟩
  | get k =>
      rcases h.get hLater k with ⟨hGot, hValue⟩
      exact ⟨hGot, congrArg Reply.value hValue⟩
  | remove k =>
      rcases h.remove hLater k with ⟨hRemoved, hValue⟩
      exact ⟨hRemoved, congrArg Reply.value hValue⟩
  | purge =>
      rcases h.purge hLater with ⟨hPurged, hDropped⟩
      exact ⟨hPurged, congrArg Reply.count hDropped⟩
  | clear => exact ⟨h.clear now, rfl⟩
  | size => exact ⟨hStay, congrArg Reply.count (h.size_eq now)⟩
  | isEmpty =>
      exact ⟨hStay, congrArg Reply.flag (h.isEmpty_eq now)⟩
  | living =>
      refine ⟨hStay, ?_⟩
      simp only [Cache.serve, Pile.serve, h.living_eq]
      rfl
  | peek k =>
      refine ⟨hStay, ?_⟩
      simp only [Cache.serve, Pile.serve, h.live?_eq]
      rfl
  | contains k =>
      refine ⟨hStay, ?_⟩
      simp only [Cache.serve, Pile.serve, h.live?_eq,
        Cache.contains, Cache.peek, Option.isSome_map]
  | insertedAt k =>
      refine ⟨hStay, ?_⟩
      simp only [Cache.serve, Pile.serve, h.live?_eq]
      rfl
  | lastAccess k =>
      refine ⟨hStay, ?_⟩
      simp only [Cache.serve, Pile.serve, h.live?_eq]
      rfl

/- Requests are answered alike, as long as time goes on. -/
theorem run
    (h : c.Refines p last)
    {steps : List (Nat × Request K V)}
    (hSteady :
      (last :: steps.map Prod.fst).Pairwise (· ≤ ·)) :
    (c.run steps).2 = (p.run steps).2 := by
  induction steps generalizing c p last with
  | nil => rfl
  | cons step steps ih =>
      rcases step with ⟨now, request⟩
      rcases List.pairwise_cons.mp hSteady with
        ⟨hFirst, hRest⟩
      have hLater : last ≤ now := hFirst now (by simp)
      rcases h.serve hLater request with ⟨hServed, hReply⟩
      have hReplies := ih hServed hRest
      unfold Cache.run Pile.run
      simp only [hReply, hReplies]

end Refines

/-
  A cache answers all requests as a pile of the same capacity
  does, if the clock is never set back.
-/
theorem replies_run_eq
    [Std.LawfulEqOrd K] [DecidableEq K]
    (capacity ttl : Nat)
    (steps : List (Nat × Request K V))
    (hSteady : (steps.map Prod.fst).Pairwise (· ≤ ·)) :
    ((empty capacity ttl : Cache K V).run steps).2 =
      ((Pile.empty capacity ttl).run steps).2 := by
  apply (refines_empty capacity ttl 0).run
  refine List.pairwise_cons.mpr ⟨?_, hSteady⟩
  intro now _
  exact Nat.zero_le now

/- Room for one entry: the second put drops the first. -/
theorem replies_run_small :
    ((empty 1 5 : Cache Nat Nat).run
      [(0, .put 1 10), (3, .put 2 20), (7, .get 2),
        (7, .peek 1), (8, .size), (8, .lastAccess 2)]).2 =
      [.count 0, .count 1, .value (some 20), .value none,
        .count 0, .time none] :=
  (replies_run_eq 1 5 _ (by decide)).trans (by decide)

end Cache

end OrderWatch
