import Mathlib.Data.List.Nodup
import Mathlib.Data.List.Perm.Basic
import OrderWatch.Cache
import OrderWatch.Proofs.Chain

/-
  How the parts of a cache hold together.

  Two lists of slots stand behind a cache: the occupied slots
  from the one last used on, and the same slots from the one
  last put on.  The chains spell these lists, the index leads
  every key to the slot that holds it, and the free list has
  the empty slots.  Nothing here depends on the readings of
  the clock.

  Main declarations:
    * `Cache.entries`
    * `Cache.Holds`
    * `Cache.Holds.find?_entries`
    * `Cache.Holds.toFront`, `Cache.Holds.toNewest`
    * `Cache.Holds.drop`, `Cache.Holds.dropAll`
    * `Cache.Holds.enter`
-/

namespace OrderWatch

namespace Cache

variable {K V : Type} [Ord K]

/- The entries, expired ones included, the last used first. -/
def entries (c : Cache K V) : List (Entry K V) :=
  c.recency.forward.filterMap c.entry?

------------------------------------------------------------
-- Entries of slots
------------------------------------------------------------

theorem entry?_lt_size
    {c : Cache K V}
    {i : Nat}
    {e : Entry K V}
    (hEntry : c.entry? i = some e) :
    i < c.slots.size := by
  by_contra hOut
  have hNone : c.slots[i]? = none :=
    Array.getElem?_eq_none (Nat.le_of_not_lt hOut)
  unfold entry? at hEntry
  simp [hNone] at hEntry

theorem entry?_modifySlot
    (c : Cache K V)
    (i : Nat)
    (f : Entry K V → Entry K V)
    (j : Nat) :
    Cache.entry? (c.modifySlot i f) j =
      if j = i then (c.entry? i).map f else c.entry? j := by
  unfold modifySlot entry?
  by_cases hSame : j = i
  · subst j
    cases hSlot : c.slots[i]? with
    | none => simp [Array.getElem?_modify, hSlot]
    | some e? => simp [Array.getElem?_modify, hSlot]
  · simp [Array.getElem?_modify, hSame, Ne.symm hSame]

theorem entry?_drop
    [Std.TransOrd K]
    (c : Cache K V)
    (i j : Nat) :
    Cache.entry? (c.drop i) j =
      if j = i then none else c.entry? j := by
  cases hEntry : c.entry? i with
  | none =>
      simp only [drop, hEntry]
      split
      · simp_all
      · rfl
  | some e =>
      have hSlots :
          (c.drop i).slots = c.slots.setIfInBounds i none := by
        simp only [drop, hEntry]
      have hInside := entry?_lt_size hEntry
      unfold entry?
      rw [hSlots, Array.getElem?_setIfInBounds]
      by_cases hSame : j = i
      · subst j
        simp [hInside]
      · simp [hSame, Ne.symm hSame]

------------------------------------------------------------
-- The lists behind a cache
------------------------------------------------------------

/-
  The occupied slots of a cache, by their last use and by
  their last put.
-/
structure Holds
    [Std.TransOrd K]
    (c : Cache K V)
    (order age : List Nat) : Prop where
  spells_order : c.recency.Spells order
  spells_age : c.age.Spells age
  perm : age.Perm order
  /- A slot is in the lists exactly if it is occupied. -/
  occupied : ∀ i, i ∈ order ↔ (c.entry? i).isSome
  /- The index leads to the slot that holds the key. -/
  index_iff :
    ∀ k i, c.index[k]? = some i ↔
      (c.entry? i).map Entry.key = some k
  stored_eq : c.index.size = order.length
  free_nodup : c.free.Nodup
  free_iff :
    ∀ i, i ∈ c.free ↔ i < c.slots.size ∧ c.entry? i = none

variable [Std.TransOrd K]
variable {c : Cache K V} {order age : List Nat}

/- A cache without entries. -/
theorem holds_empty
    (capacity ttl : Nat) :
    (empty capacity ttl : Cache K V).Holds [] [] where
  spells_order := Chain.spells_empty
  spells_age := Chain.spells_empty
  perm := List.Perm.refl []
  occupied := by
    intro i
    unfold entry? empty
    simp
  index_iff := by
    intro k i
    unfold entry? empty
    simp
  stored_eq := rfl
  free_nodup := List.nodup_nil
  free_iff := by
    intro i
    simp [empty]

namespace Holds

theorem entries_eq
    (h : c.Holds order age) :
    c.entries = order.filterMap c.entry? := by
  rw [entries, h.spells_order.forward_eq]

theorem mem_age
    (h : c.Holds order age)
    (i : Nat) :
    i ∈ age ↔ i ∈ order :=
  h.perm.mem_iff

/- Two slots do not hold the same key. -/
theorem slot_unique
    (h : c.Holds order age)
    {i j : Nat}
    {d e : Entry K V}
    (hFirst : c.entry? i = some d)
    (hSecond : c.entry? j = some e)
    (hKey : d.key = e.key) :
    i = j := by
  have hLeft : c.index[e.key]? = some i :=
    (h.index_iff e.key i).mpr (by simp [hFirst, hKey])
  have hRight : c.index[e.key]? = some j :=
    (h.index_iff e.key j).mpr (by simp [hSecond])
  exact Option.some.inj (hLeft.symm.trans hRight)

/- The slot of an indexed key holds it. -/
theorem entry?_of_index
    (h : c.Holds order age)
    {k : K}
    {i : Nat}
    (hIndex : c.index[k]? = some i) :
    ∃ e, c.entry? i = some e ∧ e.key = k := by
  have hKey := (h.index_iff k i).mp hIndex
  simpa using hKey

theorem mem_entries_iff
    (h : c.Holds order age)
    (e : Entry K V) :
    e ∈ c.entries ↔ ∃ i, c.entry? i = some e := by
  rw [h.entries_eq, List.mem_filterMap]
  constructor
  · rintro ⟨i, _, hEntry⟩
    exact ⟨i, hEntry⟩
  · rintro ⟨i, hEntry⟩
    exact ⟨i, (h.occupied i).mpr (by simp [hEntry]), hEntry⟩

theorem length_entries
    (h : c.Holds order age) :
    c.entries.length = order.length := by
  rw [h.entries_eq, List.length_filterMap_eq_countP,
    List.countP_eq_length]
  intro i hMem
  exact (h.occupied i).mp hMem

theorem stored_entries
    (h : c.Holds order age) :
    c.stored = c.entries.length := by
  rw [stored, h.stored_eq, h.length_entries]

/- Every key has one entry. -/
theorem nodup_keys
    (h : c.Holds order age) :
    (c.entries.map Entry.key).Nodup := by
  rw [h.entries_eq, List.map_filterMap]
  apply List.Nodup.filterMap _ h.spells_order.nodup
  intro i j k hFirst hSecond
  simp only [Option.mem_def, Option.map_eq_some_iff]
    at hFirst hSecond
  rcases hFirst with ⟨d, hLeft, hKey⟩
  rcases hSecond with ⟨e, hRight, hSame⟩
  exact h.slot_unique hLeft hRight (hKey.trans hSame.symm)

/- The entry of a key is the one that the index leads to. -/
theorem find?_entries
    [DecidableEq K]
    (h : c.Holds order age)
    (k : K) :
    c.entries.find? (fun e => e.key = k) =
      c.index[k]?.bind c.entry? := by
  cases hIndex : c.index[k]? with
  | none =>
      rw [Option.bind_none, List.find?_eq_none]
      intro e hMem hKey
      rcases (h.mem_entries_iff e).mp hMem with ⟨i, hEntry⟩
      have hFound : c.index[k]? = some i :=
        (h.index_iff k i).mpr (by
          simpa [hEntry] using hKey)
      simp [hIndex] at hFound
  | some i =>
      rcases h.entry?_of_index hIndex with ⟨e, hEntry, hKey⟩
      have hMem : e ∈ c.entries :=
        (h.mem_entries_iff e).mpr ⟨i, hEntry⟩
      rw [Option.bind_some, hEntry]
      cases hFound : c.entries.find? (fun e => e.key = k) with
      | none =>
          rw [List.find?_eq_none] at hFound
          exact absurd (by simpa using hKey) (hFound e hMem)
      | some d =>
          have hSame : d.key = k := by
            simpa using List.find?_some hFound
          have hOther := List.mem_of_find?_eq_some hFound
          rcases (h.mem_entries_iff d).mp hOther with
            ⟨j, hSlot⟩
          have hSlots : j = i :=
            h.slot_unique hSlot hEntry (hSame.trans hKey.symm)
          rw [hSlots, hEntry] at hSlot
          exact hSlot.symm

------------------------------------------------------------
-- Moving
------------------------------------------------------------

/-
  Entries may change in their slots, and slots may change
  their places in the lists, as long as the keys stay.
-/
theorem reordered
    (h : c.Holds order age)
    {d : Cache K V}
    {order' age' : List Nat}
    (hIndex : d.index = c.index)
    (hFree : d.free = c.free)
    (hSize : d.slots.size = c.slots.size)
    (hKeys :
      ∀ i, (d.entry? i).map Entry.key =
        (c.entry? i).map Entry.key)
    (hOrder : d.recency.Spells order')
    (hAge : d.age.Spells age')
    (hSameOrder : order'.Perm order)
    (hSameAge : age'.Perm age) :
    d.Holds order' age' := by
  have hFilled :
      ∀ i, (d.entry? i).isSome = (c.entry? i).isSome := by
    intro i
    have hSome := congrArg Option.isSome (hKeys i)
    simpa using hSome
  have hEmpty :
      ∀ i, d.entry? i = none ↔ c.entry? i = none := by
    intro i
    rw [← Option.isNone_iff_eq_none,
      ← Option.isNone_iff_eq_none, ← Option.not_isSome,
      ← Option.not_isSome, hFilled]
  exact
    { spells_order := hOrder
      spells_age := hAge
      perm := hSameAge.trans (h.perm.trans hSameOrder.symm)
      occupied := by
        intro i
        rw [hSameOrder.mem_iff, h.occupied, hFilled]
      index_iff := by
        intro k i
        rw [hIndex, hKeys, h.index_iff]
      stored_eq := by
        rw [hIndex, h.stored_eq, hSameOrder.length_eq]
      free_nodup := hFree ▸ h.free_nodup
      free_iff := by
        intro i
        rw [hFree, hSize, hEmpty, h.free_iff] }

/- Entries change in their slots, and keep their keys. -/
theorem modifySlot
    (h : c.Holds order age)
    (i : Nat)
    {f : Entry K V → Entry K V}
    (hKey : ∀ e, (f e).key = e.key) :
    (c.modifySlot i f).Holds order age := by
  apply h.reordered
  · rfl
  · rfl
  · simp [Cache.modifySlot]
  · intro j
    rw [entry?_modifySlot]
    by_cases hSame : j = i
    · subst j
      simp [Function.comp_def, hKey]
    · simp [hSame]
  · exact h.spells_order
  · exact h.spells_age
  · exact List.Perm.refl order
  · exact List.Perm.refl age

/- An occupied slot becomes the one last used. -/
theorem toFront
    (h : c.Holds order age)
    {i : Nat}
    (hMem : i ∈ order) :
    ({ c with recency := c.recency.toFront i }).Holds
      (i :: order.filter (· ≠ i)) age := by
  apply h.reordered (d :=
    { c with recency := c.recency.toFront i })
  · rfl
  · rfl
  · rfl
  · intro j
    rfl
  · exact h.spells_order.toFront hMem
  · exact h.spells_age
  · exact Chain.perm_cons_filter_ne h.spells_order.nodup hMem
  · exact List.Perm.refl age

/- An occupied slot becomes the newest one. -/
theorem toNewest
    (h : c.Holds order age)
    {i : Nat}
    (hMem : i ∈ order) :
    ({ c with age := (c.age.detach i).pushFront i }).Holds
      order (i :: age.filter (· ≠ i)) := by
  have hIn : i ∈ age := (h.mem_age i).mpr hMem
  apply h.reordered (d :=
    { c with age := (c.age.detach i).pushFront i })
  · rfl
  · rfl
  · rfl
  · intro j
    rfl
  · exact h.spells_order
  · exact (h.spells_age.detach i).pushFront (by simp)
  · exact List.Perm.refl order
  · exact Chain.perm_cons_filter_ne h.spells_age.nodup hIn

------------------------------------------------------------
-- Dropping
------------------------------------------------------------

variable [Std.LawfulEqOrd K]

/- A slot that is emptied leaves both lists. -/
theorem drop
    (h : c.Holds order age)
    (i : Nat) :
    (c.drop i).Holds
      (order.filter (· ≠ i)) (age.filter (· ≠ i)) := by
  cases hEntry : c.entry? i with
  | none =>
      have hOut : i ∉ order := by
        simp [h.occupied, hEntry]
      have hSame : c.drop i = c := by
        simp only [Cache.drop, hEntry]
      rw [hSame, Chain.filter_ne_of_not_mem hOut,
        Chain.filter_ne_of_not_mem (by rwa [h.mem_age])]
      exact h
  | some e =>
      have hMem : i ∈ order := by
        simp [h.occupied, hEntry]
      have hIndexed : c.index[e.key]? = some i :=
        (h.index_iff e.key i).mpr (by simp [hEntry])
      have hIndex :
          (c.drop i).index = c.index.erase e.key := by
        simp only [Cache.drop, hEntry]
      have hFree : (c.drop i).free = i :: c.free := by
        simp only [Cache.drop, hEntry]
      have hSize : (c.drop i).slots.size = c.slots.size := by
        simp only [Cache.drop, hEntry,
          Array.size_setIfInBounds]
      refine
        { spells_order := ?_
          spells_age := ?_
          perm := h.perm.filter _
          occupied := ?_
          index_iff := ?_
          stored_eq := ?_
          free_nodup := ?_
          free_iff := ?_ }
      · simpa only [Cache.drop, hEntry] using
          h.spells_order.detach i
      · simpa only [Cache.drop, hEntry] using
          h.spells_age.detach i
      · intro j
        rw [entry?_drop, List.mem_filter, h.occupied]
        by_cases hSame : j = i <;> simp [hSame]
      · intro k j
        have hErased :
            (c.index.erase e.key)[k]? = some j ↔
              e.key ≠ k ∧ c.index[k]? = some j := by
          rw [Std.ExtTreeMap.getElem?_erase]
          by_cases hKey : e.key = k <;> simp [hKey]
        rw [hIndex, entry?_drop, hErased]
        by_cases hSame : j = i
        · subst j
          by_cases hKey : e.key = k
          · simp [hKey]
          · simp [hKey, h.index_iff, hEntry]
        · by_cases hKey : e.key = k
          · subst hKey
            rw [if_neg hSame, ← h.index_iff]
            simp [hIndexed, Ne.symm hSame]
          · simp [hKey, hSame, h.index_iff]
      · have hKnown : c.index.contains e.key = true := by
          rw [Std.ExtTreeMap.contains_eq_isSome_getElem?,
            hIndexed]
          rfl
        have hFewer :=
          Chain.length_filter_ne h.spells_order.nodup hMem
        have hStored := h.stored_eq
        rw [hIndex, Std.ExtTreeMap.size_erase, if_pos hKnown]
        omega
      · rw [hFree, List.nodup_cons]
        refine ⟨?_, h.free_nodup⟩
        rw [h.free_iff, hEntry]
        simp
      · intro j
        rw [hFree, hSize, entry?_drop, List.mem_cons,
          h.free_iff]
        by_cases hSame : j = i
        · simp [hSame, entry?_lt_size hEntry]
        · simp [hSame]

/- Some slots that are emptied leave both lists. -/
theorem dropAll
    (h : c.Holds order age)
    (slots : List Nat) :
    (slots.foldl Cache.drop c).Holds
      (order.filter (· ∉ slots)) (age.filter (· ∉ slots)) := by
  induction slots generalizing c order age with
  | nil => simpa using h
  | cons i slots ih =>
      have hRest := ih (h.drop i)
      simp only [List.filter_filter] at hRest
      simpa [List.foldl_cons, Bool.and_comm] using hRest

end Holds

theorem entry?_dropAll
    (c : Cache K V)
    (slots : List Nat)
    (j : Nat) :
    Cache.entry? (slots.foldl drop c) j =
      if j ∈ slots then none else c.entry? j := by
  induction slots generalizing c with
  | nil => simp
  | cons i slots ih =>
      rw [List.foldl_cons, ih, entry?_drop]
      by_cases hSame : j = i <;> simp [hSame]

------------------------------------------------------------
-- Entering
------------------------------------------------------------

/-
  A new entry goes into an empty slot, as the one last used
  and the newest.
-/
def enter (c : Cache K V) (e : Entry K V) : Cache K V :=
  let (d, i) := c.allocate e
  { d with
    index := d.index.insert e.key i
    recency := d.recency.pushFront i
    age := d.age.pushFront i }

/- A cache in which a slot has been taken for an entry. -/
structure Takes
    (c d : Cache K V)
    (i : Nat)
    (e : Entry K V) : Prop where
  empty : c.entry? i = none
  inside : i < d.slots.size
  entry_eq :
    ∀ j, d.entry? j = if j = i then some e else c.entry? j
  free_nodup : d.free.Nodup
  free_iff :
    ∀ j, j ∈ d.free ↔ j < d.slots.size ∧ d.entry? j = none

/- A new entry takes a slot that has been empty. -/
theorem Holds.takes_allocate
    (h : c.Holds order age)
    (e : Entry K V) :
    c.Takes (c.allocate e).1 (c.allocate e).2 e := by
  cases hFree : c.free with
  | nil =>
      have hPushed :
          c.allocate e =
            ({ c with slots := c.slots.push (some e) },
              c.slots.size) := by
        simp only [allocate, hFree]
      have hBeyond : c.slots[c.slots.size]? = none :=
        Array.getElem?_eq_none (Nat.le_refl _)
      have hEmpty : c.entry? c.slots.size = none := by
        unfold entry?
        rw [hBeyond]
        rfl
      rw [hPushed]
      have hEntry :
          ∀ j,
            Cache.entry?
                { c with slots := c.slots.push (some e) } j =
              if j = c.slots.size then some e
              else c.entry? j := by
        intro j
        unfold entry?
        rw [Array.getElem?_push]
        split <;> rfl
      refine ⟨hEmpty, by simp, hEntry, h.free_nodup, ?_⟩
      intro j
      have hFull := h.free_iff j
      rw [hEntry, Array.size_push]
      by_cases hSame : j = c.slots.size
      · simp [hSame, hFree]
      · rw [if_neg hSame, hFull]
        constructor
        · rintro ⟨hInside, hNone⟩
          exact ⟨by omega, hNone⟩
        · rintro ⟨hInside, hNone⟩
          exact ⟨by omega, hNone⟩
  | cons i free =>
      have hSet :
          c.allocate e =
            ({ c with
                slots := c.slots.setIfInBounds i (some e)
                free },
              i) := by
        simp only [allocate, hFree]
      have hUnused := (h.free_iff i).mp (by simp [hFree])
      have hNodup := h.free_nodup
      rw [hFree, List.nodup_cons] at hNodup
      rw [hSet]
      have hEntry :
          ∀ j,
            Cache.entry?
                { c with
                  slots := c.slots.setIfInBounds i (some e)
                  free } j =
              if j = i then some e else c.entry? j := by
        intro j
        unfold entry?
        rw [Array.getElem?_setIfInBounds]
        by_cases hSame : j = i
        · subst j
          simp [hUnused.1]
        · simp [hSame, Ne.symm hSame]
      refine
        ⟨hUnused.2, by simpa using hUnused.1, hEntry,
          hNodup.2, ?_⟩
      intro j
      have hOld := h.free_iff j
      rw [hFree, List.mem_cons] at hOld
      rw [hEntry]
      by_cases hSame : j = i
      · simp [hSame, hNodup.1]
      · simpa [hSame] using hOld

/- A new entry comes first in both lists. -/
theorem Holds.enter
    [Std.LawfulEqOrd K]
    (h : c.Holds order age)
    {e : Entry K V}
    (hNew : c.index[e.key]? = none) :
    ∃ i, i ∉ order ∧
      (c.enter e).Holds (i :: order) (i :: age) ∧
      ∀ j, Cache.entry? (c.enter e) j =
        if j = i then some e else c.entry? j := by
  have hTakes := h.takes_allocate e
  have hKept :
      (c.allocate e).1.index = c.index ∧
        (c.allocate e).1.recency = c.recency ∧
        (c.allocate e).1.age = c.age := by
    unfold allocate
    split <;> exact ⟨rfl, rfl, rfl⟩
  rcases hKept with ⟨hIndex, hRecency, hAge⟩
  have hOut : (c.allocate e).2 ∉ order := by
    rw [h.occupied, hTakes.empty]
    simp
  have hEntry :
      ∀ j, Cache.entry? (c.enter e) j =
        if j = (c.allocate e).2 then some e else c.entry? j :=
    hTakes.entry_eq
  refine ⟨(c.allocate e).2, hOut, ?_, hEntry⟩
  exact
    { spells_order := by
        have hFront := h.spells_order.pushFront hOut
        simpa only [Cache.enter, hRecency] using hFront
      spells_age := by
        have hOutAge : (c.allocate e).2 ∉ age := by
          rwa [h.mem_age]
        have hFront := h.spells_age.pushFront hOutAge
        simpa only [Cache.enter, hAge] using hFront
      perm := h.perm.cons _
      occupied := by
        intro j
        rw [hEntry, List.mem_cons, h.occupied]
        by_cases hSame : j = (c.allocate e).2 <;>
          simp [hSame]
      index_iff := by
        intro k j
        have hOld := h.index_iff k j
        have hInserted :
            (c.enter e).index =
              c.index.insert e.key (c.allocate e).2 := by
          simp only [Cache.enter, hIndex]
        rw [hInserted, hEntry]
        by_cases hKey : e.key = k
        · subst hKey
          rw [hNew] at hOld
          rw [Std.ExtTreeMap.getElem?_insert_self]
          by_cases hSame : j = (c.allocate e).2
          · simp [hSame]
          · simpa [hSame, Ne.symm hSame] using hOld
        · have hCompare : compare e.key k ≠ .eq := by
            simpa using hKey
          rw [Std.ExtTreeMap.getElem?_insert, if_neg hCompare,
            hOld]
          by_cases hSame : j = (c.allocate e).2
          · simp [hSame, hTakes.empty, hKey]
          · rw [if_neg hSame]
      stored_eq := by
        have hAbsent : c.index.contains e.key = false := by
          rw [Std.ExtTreeMap.contains_eq_isSome_getElem?, hNew]
          rfl
        simp only [Cache.enter, hIndex,
          Std.ExtTreeMap.size_insert, hAbsent, h.stored_eq]
        rfl
      free_nodup := hTakes.free_nodup
      free_iff := hTakes.free_iff }

end Cache

end OrderWatch
