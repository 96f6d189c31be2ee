import OrderWatch.Proofs.Cache.Loss
import OrderWatch.Proofs.Cache.Pile

/-
  How a cache lies in its slots.

  A cache never has more entries than it may, and one slot
  more than that: a put takes a slot for its entry before it
  makes room, and slots that have been emptied are taken
  first.  So the slots do not become more, however many
  entries are put, and in every state that can be reached the
  index, the slots, both chains and the free list agree.

  Main declarations:
    * `Cache.Fits`, `Cache.Fits.put`
    * `Cache.follows_serve`, `Cache.timely_run`
    * `Cache.Sound`
    * `Cache.sound_run`
-/

namespace OrderWatch

namespace Cache

variable {K V : Type} [Ord K]

------------------------------------------------------------
-- Entries and slots
------------------------------------------------------------

/- A cache has so many entries at most, in so many slots. -/
structure Fits (c : Cache K V) (entries slots : Nat) : Prop where
  stored_le : c.stored ≤ entries
  slots_le : c.slots.size ≤ slots

variable {c d : Cache K V} {order age : List Nat}
variable {entries slots : Nat}

/- What fits is the numbers of entries and of slots alone. -/
theorem Fits.of_eq
    (h : c.Fits entries slots)
    (hIndex : d.index = c.index)
    (hSlots : d.slots.size = c.slots.size) :
    d.Fits entries slots where
  stored_le := by
    rw [stored, hIndex]
    exact h.stored_le
  slots_le := by
    rw [hSlots]
    exact h.slots_le

variable [Std.TransOrd K]

/- A slot is occupied or free, and not both. -/
theorem Holds.perm_slots
    (h : c.Holds order age) :
    (order ++ c.free).Perm (List.range c.slots.size) := by
  have hApart : order.Disjoint c.free := by
    intro i hMem hFree
    rw [h.occupied, ((h.free_iff i).mp hFree).2] at hMem
    contradiction
  have hNodup : (order ++ c.free).Nodup :=
    List.nodup_append'.mpr
      ⟨h.spells_order.nodup, h.free_nodup, hApart⟩
  rw [List.perm_ext_iff_of_nodup hNodup List.nodup_range]
  intro i
  rw [List.mem_append, List.mem_range, h.occupied, h.free_iff]
  constructor
  · rintro (hFilled | ⟨hInside, _⟩)
    · rcases Option.isSome_iff_exists.mp hFilled with
        ⟨e, hEntry⟩
      exact entry?_lt_size hEntry
    · exact hInside
  · intro hInside
    cases hEntry : c.entry? i with
    | some e => exact .inl rfl
    | none => exact .inr ⟨hInside, rfl⟩

theorem Holds.stored_add_free
    (h : c.Holds order age) :
    c.stored + c.free.length = c.slots.size := by
  have hLength := h.perm_slots.length_eq
  rw [List.length_append, List.length_range] at hLength
  rw [stored, h.stored_eq, hLength]

namespace Fits

/- An entry may change in its slot. -/
theorem modify
    (h : c.Fits entries slots)
    (k : K)
    (f : V → V) :
    (c.modify k f).Fits entries slots := by
  unfold Cache.modify
  split
  · exact h.of_eq rfl (by simp [modifySlot])
  · exact h

/- Slots that are emptied are kept for later. -/
theorem drop
    (h : c.Fits entries slots)
    (i : Nat) :
    (c.drop i).Fits entries slots := by
  unfold Cache.drop
  split
  · rename_i e _
    exact
      { stored_le :=
          Std.ExtTreeMap.size_erase_le.trans h.stored_le
        slots_le := by simpa using h.slots_le }
  · exact h

theorem dropAll
    (h : c.Fits entries slots)
    (dropped : List Nat) :
    (dropped.foldl Cache.drop c).Fits entries slots := by
  induction dropped generalizing c with
  | nil => exact h
  | cons i dropped ih => exact ih (h.drop i)

theorem evict
    (h : c.Fits entries slots)
    (n : Nat) :
    (Cache.evict n c).Fits entries slots := by
  induction n generalizing c with
  | zero => exact h
  | succ n ih =>
      unfold Cache.evict
      split
      · exact ih (h.drop _)
      · exact h

theorem purge
    (h : c.Fits entries slots)
    (now : Nat) :
    (c.purge now).1.Fits entries slots :=
  h.dropAll (c.expiredSlots now)

theorem get
    (h : c.Fits entries slots)
    (now : Nat)
    (k : K) :
    (c.get now k).1.Fits entries slots := by
  unfold Cache.get
  split
  · split
    · exact h.drop _
    · exact h.of_eq rfl (by simp [modifySlot])
  · exact h

theorem remove
    (h : c.Fits entries slots)
    (now : Nat)
    (k : K) :
    (c.remove now k).1.Fits entries slots := by
  unfold Cache.remove
  split
  · exact h.drop _
  · exact h

/-
  A new entry takes a free slot, or a new one if the entries
  fill all of them.
-/
theorem enter
    {n : Nat}
    (h : c.Fits n (n + 1))
    (hWhole : c.Whole)
    (e : Entry K V) :
    (c.enter e).Fits (n + 1) (n + 1) := by
  rcases hWhole with ⟨order, age, hHolds⟩
  have hFree := hHolds.stored_add_free
  have hStored := h.stored_le
  have hSlots := h.slots_le
  have hIndex : (c.allocate e).1.index = c.index := by
    unfold allocate
    split <;> rfl
  constructor
  · have hInsert :
        (c.enter e).stored ≤ c.stored + 1 := by
      unfold stored Cache.enter
      simp only [hIndex]
      exact Std.ExtTreeMap.size_insert_le
    omega
  · change (c.allocate e).1.slots.size ≤ n + 1
    cases hNone : c.free with
    | nil =>
        rw [hNone, List.length_nil] at hFree
        simp only [allocate, hNone, Array.size_push]
        omega
    | cons i free =>
        simp only [allocate, hNone, Array.size_setIfInBounds]
        exact hSlots

variable [Std.LawfulEqOrd K]

theorem shrink
    (h : c.Fits entries slots)
    (hWhole : c.Whole)
    (now : Nat) :
    (c.shrink now).Fits c.capacity slots where
  stored_le := hWhole.stored_shrink_le now
  slots_le := by
    unfold Cache.shrink
    split
    · exact ((h.purge now).evict _).slots_le
    · exact h.slots_le

theorem put
    (h : c.Fits c.capacity (c.capacity + 1))
    (hWhole : c.Whole)
    (now : Nat)
    (k : K)
    (v : V) :
    (c.put now k v).1.Fits c.capacity (c.capacity + 1) := by
  cases hIndex : c.index[k]? with
  | some i =>
      rw [put_stored c hIndex]
      exact h.of_eq rfl (by simp [modifySlot])
  | none =>
      have hFollows :=
        c.follows_enter (e := ⟨k, v, now, now⟩) hIndex
      have hEntered := h.enter hWhole ⟨k, v, now, now⟩
      rw [put_new c hIndex, ← hFollows.capacity_eq]
      rw [← hFollows.capacity_eq] at hEntered
      exact hEntered.shrink (hFollows.whole hWhole) now

end Fits

------------------------------------------------------------
-- Soundness
------------------------------------------------------------

/- The parts of a cache agree, and none is too large. -/
structure Sound (c : Cache K V) : Prop where
  /- A key leads to the slot that holds it, and to no other. -/
  index_iff :
    ∀ k i, c.index[k]? = some i ↔
      (c.entry? i).map Entry.key = some k
  /- Both chains lead through the occupied slots. -/
  recency : c.recency.Threads fun i => (c.entry? i).isSome
  age : c.age.Threads fun i => (c.entry? i).isSome
  /- Back from the oldest entry the times go up. -/
  times_up : (c.times c.age.backward).Pairwise (· ≤ ·)
  free_nodup : c.free.Nodup
  free_iff :
    ∀ i, i ∈ c.free ↔ i < c.slots.size ∧ c.entry? i = none
  stored_le : c.index.size ≤ c.capacity
  slots_le : c.slots.size ≤ c.capacity + 1
  /- No more entries are expired than there are. -/
  expired_le : ∀ now, (c.expiredSlots now).length ≤ c.index.size

theorem Timely.sound
    {now : Nat}
    (hTimely : c.Timely now)
    (h : c.Fits c.capacity (c.capacity + 1)) :
    c.Sound := by
  rcases hTimely with ⟨order, age, hHolds, hDated⟩
  have hOrder :
      (· ∈ order) = fun i => (c.entry? i).isSome = true := by
    funext i
    exact propext (hHolds.occupied i)
  have hAge :
      (· ∈ age) = fun i => (c.entry? i).isSome = true := by
    funext i
    exact propext ((hHolds.mem_age i).trans (hHolds.occupied i))
  exact
    { index_iff := hHolds.index_iff
      recency := hOrder ▸ hHolds.spells_order.threads
      age := hAge ▸ hHolds.spells_age.threads
      times_up := by
        have hDown := (List.pairwise_cons.mp hDated).2
        rw [hHolds.spells_age.backward_eq]
        unfold times at hDown ⊢
        rw [List.filterMap_reverse, List.pairwise_reverse]
        exact hDown
      free_nodup := hHolds.free_nodup
      free_iff := hHolds.free_iff
      stored_le := h.stored_le
      slots_le := h.slots_le
      expired_le := by
        intro time
        unfold expiredSlots
        rw [hHolds.spells_age.backwardWhile_eq,
          hHolds.stored_eq, ← hHolds.perm.length_eq]
        have hLength :=
          (List.takeWhile_sublist (c.isExpired time)
            (l := age.reverse)).length_le
        rwa [List.length_reverse] at hLength }

------------------------------------------------------------
-- Requests
------------------------------------------------------------

theorem follows_clear
    (c : Cache K V)
    (now : Nat) :
    c.Follows c.clear now where
  capacity_eq := rfl
  ttl_eq := rfl
  held := by
    intro order age _
    refine ⟨[], [], holds_empty c.capacity c.ttl, ?_⟩
    intro last _ _
    exact List.pairwise_singleton _ now

variable [Std.LawfulEqOrd K]

/- Whatever is asked, a cache goes on from what it was. -/
theorem follows_serve
    (c : Cache K V)
    (now : Nat)
    (request : Request K V) :
    c.Follows (c.serve now request).1 now := by
  cases request with
  | put k v => exact c.follows_put now k v
  | get k => exact c.follows_get now k
  | remove k => exact c.follows_remove now k
  | purge => exact c.follows_purge now
  | clear => exact c.follows_clear now
  | _ => exact Follows.refl c now

theorem Fits.serve
    (h : c.Fits c.capacity (c.capacity + 1))
    (hWhole : c.Whole)
    (now : Nat)
    (request : Request K V) :
    (c.serve now request).1.Fits c.capacity
      (c.capacity + 1) := by
  cases request with
  | put k v => exact h.put hWhole now k v
  | get k => exact h.get now k
  | remove k => exact h.remove now k
  | purge => exact h.purge now
  | clear => exact ⟨Nat.zero_le _, Nat.zero_le _⟩
  | _ => exact h

/- A run keeps the parts together and within their bounds. -/
theorem timely_run
    {last : Nat}
    (hTimely : c.Timely last)
    (h : c.Fits c.capacity (c.capacity + 1))
    {steps : List (Nat × Request K V)}
    (hSteady :
      (last :: steps.map Prod.fst).Pairwise (· ≤ ·)) :
    (∃ now, (c.run steps).1.Timely now) ∧
      (c.run steps).1.capacity = c.capacity ∧
      (c.run steps).1.Fits c.capacity (c.capacity + 1) := by
  induction steps generalizing c last with
  | nil => exact ⟨⟨last, hTimely⟩, rfl, h⟩
  | cons step steps ih =>
      rcases step with ⟨now, request⟩
      rcases List.pairwise_cons.mp hSteady with
        ⟨hFirst, hRest⟩
      have hLater : last ≤ now := hFirst now (by simp)
      have hFollows := c.follows_serve now request
      have hServed := h.serve hTimely.whole now request
      rw [← hFollows.capacity_eq] at hServed ⊢
      exact ih (hFollows.timely hTimely hLater) hServed hRest

/-
  Whatever has been asked of a cache, its parts agree, its
  entries are not more than its capacity, and there is at
  most one slot more than that, as long as the clock has not
  been set back.
-/
theorem sound_run
    (capacity ttl : Nat)
    (steps : List (Nat × Request K V))
    (hSteady : (steps.map Prod.fst).Pairwise (· ≤ ·)) :
    let c := ((empty capacity ttl : Cache K V).run steps).1
    c.capacity = capacity ∧ c.Sound := by
  intro c
  have hZero :
      (0 :: steps.map Prod.fst).Pairwise (· ≤ ·) :=
    List.pairwise_cons.mpr
      ⟨fun now _ => Nat.zero_le now, hSteady⟩
  have hEmpty :
      (empty capacity ttl : Cache K V).Fits capacity
        (capacity + 1) :=
    ⟨Nat.zero_le _, Nat.zero_le _⟩
  rcases timely_run (timely_empty capacity ttl 0) hEmpty
      hZero with ⟨⟨now, hTimely⟩, hCapacity, hFits⟩
  have hCapacity : c.capacity = capacity := hCapacity
  refine ⟨hCapacity, hTimely.sound ?_⟩
  rw [hCapacity]
  exact hFits

/-
  Room for one entry: of three that are put, the first is
  evicted and the next is removed, and two slots are enough.
-/
theorem sound_run_small :
    let c :=
      ((empty 1 5 : Cache Nat Nat).run
        [(0, .put 1 10), (3, .put 2 20), (4, .remove 2),
          (4, .put 3 30), (7, .get 3)]).1
    c.Sound ∧ c.slots.size = 2 ∧ c.age.backward = [1] ∧
      c.free = [0] :=
  ⟨(sound_run 1 5 _ (by decide)).2, by decide⟩

end Cache

end OrderWatch
