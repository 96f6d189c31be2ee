import OrderWatch.Proofs.Cache.Steps

/-
  What a cache keeps under its keys, whatever the time.

  An entry that has expired still lies in its slot and may be
  changed there, so facts about all stored values must not
  ask whether they live.  Looking things up, purging and
  evicting only let values go: what is kept afterwards was
  kept under the same key before.

  Main declarations:
    * `Cache.found?`, `Cache.kept?`
    * `Cache.Whole`, `Cache.Fades`, `Cache.Sheds`
    * `Cache.found?_enter`, `Cache.found?_modify`
    * `Cache.found?_drop`, `Cache.found?_get`
    * `Cache.fades_get`, `Cache.kept?_of_get`
    * `Cache.found?_put_or_none`, `Cache.kept?_put`
-/

namespace OrderWatch

namespace Cache

variable {K V : Type} [Ord K] [Std.TransOrd K]

/- The entry of a key, whether or not it lives. -/
def found? (c : Cache K V) (k : K) : Option (Entry K V) :=
  c.index[k]?.bind c.entry?

/- The value of a key, whether or not its entry lives. -/
def kept? (c : Cache K V) (k : K) : Option V :=
  (c.found? k).map Entry.value

/- The parts of a cache hold together. -/
def Whole (c : Cache K V) : Prop :=
  ∃ order age, c.Holds order age

/- Nothing is kept in `d` that is not kept in `c`. -/
def Fades (c d : Cache K V) : Prop :=
  ∀ k, d.kept? k = none ∨ d.kept? k = c.kept? k

/- The entries of `d` are those of `c`, save some that went. -/
def Sheds (c d : Cache K V) : Prop :=
  ∀ k, d.found? k = none ∨ d.found? k = c.found? k

variable {c d : Cache K V}

theorem whole_empty
    (capacity ttl : Nat) :
    (empty capacity ttl : Cache K V).Whole :=
  ⟨[], [], holds_empty capacity ttl⟩

theorem Follows.whole
    {now : Nat}
    (hFollows : c.Follows d now)
    (hWhole : c.Whole) :
    d.Whole := by
  rcases hWhole with ⟨order, age, h⟩
  rcases hFollows.held order age h with ⟨order', age', h', _⟩
  exact ⟨order', age', h'⟩

theorem live?_eq_filter
    (c : Cache K V)
    (now : Nat)
    (k : K) :
    c.live? now k = (c.found? k).filter (c.isLive now) := by
  unfold live? found?
  cases c.index[k]? <;> rfl

/- What is found is what the look-up tests. -/
theorem isExpired_eq
    {k : K}
    {i : Nat}
    (hIndex : c.index[k]? = some i)
    (now : Nat) :
    c.isExpired now i = !(c.found? k).any (c.isLive now) := by
  unfold isExpired found?
  rw [hIndex, Option.bind_some]

/- The answer of a look-up is the value of a living entry. -/
theorem get_answer
    (c : Cache K V)
    (now : Nat)
    (k : K) :
    (c.get now k).2 = (c.live? now k).map Entry.value := by
  rw [live?_eq_filter]
  cases hIndex : c.index[k]? with
  | none => simp [get, found?, hIndex]
  | some i =>
      have hTest := isExpired_eq hIndex now
      have hFound : c.found? k = c.entry? i := by
        simp [found?, hIndex]
      rw [hFound] at hTest ⊢
      cases hExpired : c.isExpired now i with
      | true =>
          rw [get_expired c hIndex hExpired]
          rw [hExpired] at hTest
          cases hEntry : c.entry? i with
          | none => rfl
          | some e =>
              rw [hEntry, Option.any_some] at hTest
              have hDead : c.isLive now e = false := by
                simpa using hTest
              rw [Option.filter_some, hDead]
              rfl
      | false =>
          rw [get_live c hIndex hExpired]
          rw [hExpired] at hTest
          cases hEntry : c.entry? i with
          | none => rfl
          | some e =>
              rw [hEntry, Option.any_some] at hTest
              have hLive : c.isLive now e = true := by
                simpa using hTest
              rw [Option.filter_some, hLive]
              rfl

------------------------------------------------------------
-- Entries of slots
------------------------------------------------------------

/- What is found is the entry of some slot. -/
theorem Whole.found?_eq_some
    (hWhole : c.Whole)
    (k : K)
    (e : Entry K V) :
    c.found? k = some e ↔
      ∃ i, c.entry? i = some e ∧ e.key = k := by
  rcases hWhole with ⟨order, age, h⟩
  unfold found?
  rw [Option.bind_eq_some_iff]
  constructor
  · rintro ⟨i, hIndex, hEntry⟩
    rcases h.entry?_of_index hIndex with ⟨d, hSlot, hKey⟩
    rw [hEntry] at hSlot
    rw [← Option.some.inj hSlot] at hKey
    exact ⟨i, hEntry, hKey⟩
  · rintro ⟨i, hEntry, hKey⟩
    refine ⟨i, ?_, hEntry⟩
    exact (h.index_iff k i).mpr (by simp [hEntry, hKey])

theorem Whole.found?_key
    (hWhole : c.Whole)
    {k : K}
    {e : Entry K V}
    (hFound : c.found? k = some e) :
    e.key = k := by
  rcases (hWhole.found?_eq_some k e).mp hFound with ⟨_, _, hKey⟩
  exact hKey

theorem Whole.mem_entries_iff
    (hWhole : c.Whole)
    (e : Entry K V) :
    e ∈ c.entries ↔ c.found? e.key = some e := by
  have hSlots := hWhole
  rcases hSlots with ⟨order, age, h⟩
  rw [h.mem_entries_iff, hWhole.found?_eq_some]
  simp

/- The living entries are those that are found alive. -/
theorem Whole.mem_liveEntries_iff
    (hWhole : c.Whole)
    (now : Nat)
    (e : Entry K V) :
    e ∈ c.liveEntries now ↔ c.live? now e.key = some e := by
  have hLive :
      c.liveEntries now = c.entries.filter (c.isLive now) := rfl
  rw [hLive, List.mem_filter, hWhole.mem_entries_iff,
    live?_eq_filter, Option.filter_eq_some_iff]

theorem Whole.kept?_of_mem
    (hWhole : c.Whole)
    {e : Entry K V}
    (hMem : e ∈ c.entries) :
    c.kept? e.key = some e.value := by
  unfold kept?
  rw [(hWhole.mem_entries_iff e).mp hMem]
  rfl

/- Two caches that have the same slots for a key. -/
theorem Whole.found?_congr
    (hWhole : c.Whole)
    (hWhole' : d.Whole)
    {k : K}
    (hSame :
      ∀ i e, e.key = k →
        (d.entry? i = some e ↔ c.entry? i = some e)) :
    d.found? k = c.found? k := by
  apply Option.ext
  intro e
  rw [hWhole'.found?_eq_some, hWhole.found?_eq_some]
  constructor
  · rintro ⟨i, hEntry, hKey⟩
    exact ⟨i, (hSame i e hKey).mp hEntry, hKey⟩
  · rintro ⟨i, hEntry, hKey⟩
    exact ⟨i, (hSame i e hKey).mpr hEntry, hKey⟩

/- The entry of a key whose slot has changed. -/
theorem Holds.found?_change
    [DecidableEq K]
    {order age order' age' : List Nat}
    (h : c.Holds order age)
    (h' : d.Holds order' age')
    {k : K}
    {i : Nat}
    {e : Entry K V}
    (hIndex : c.index[k]? = some i)
    (hOwn : d.entry? i = some e)
    (hKey : e.key = k)
    (hOthers : ∀ j, j ≠ i → d.entry? j = c.entry? j)
    (k' : K) :
    d.found? k' =
      if k' = k then some e else c.found? k' := by
  have hWhole : c.Whole := ⟨order, age, h⟩
  have hWhole' : d.Whole := ⟨order', age', h'⟩
  rcases h.entry?_of_index hIndex with ⟨old, hOld, hOldKey⟩
  by_cases hSameKey : k' = k
  · rw [if_pos hSameKey]
    exact (hWhole'.found?_eq_some k' e).mpr
      ⟨i, hOwn, hKey.trans hSameKey.symm⟩
  · rw [if_neg hSameKey]
    apply hWhole.found?_congr hWhole'
    intro j f hFound
    by_cases hSame : j = i
    · rw [hSame, hOwn, hOld]
      constructor
      · intro hEq
        rw [Option.some.inj hEq] at hKey
        exact absurd (hFound.symm.trans hKey) hSameKey
      · intro hEq
        rw [Option.some.inj hEq] at hOldKey
        exact absurd (hFound.symm.trans hOldKey) hSameKey
    · rw [hOthers j hSame]

/- What an entered entry adds. -/
theorem found?_enter
    [Std.LawfulEqOrd K] [DecidableEq K]
    (hWhole : c.Whole)
    {e : Entry K V}
    (hNew : c.index[e.key]? = none)
    (k : K) :
    (c.enter e).found? k =
      if k = e.key then some e else c.found? k := by
  have hWhole' := (c.follows_enter hNew).whole hWhole
  have hHolds := hWhole
  rcases hHolds with ⟨order, age, h⟩
  rcases h.enter hNew with ⟨i, hOut, _, hEntry⟩
  have hOwn : Cache.entry? (c.enter e) i = some e := by
    rw [hEntry, if_pos rfl]
  have hEmpty : c.entry? i = none := by
    rw [← Option.not_isSome_iff_eq_none, ← h.occupied]
    exact hOut
  by_cases hKey : k = e.key
  · rw [if_pos hKey]
    exact (hWhole'.found?_eq_some k e).mpr ⟨i, hOwn, hKey.symm⟩
  · rw [if_neg hKey]
    apply hWhole.found?_congr hWhole'
    intro j f hFound
    by_cases hSame : j = i
    · rw [hSame, hOwn, hEmpty]
      constructor
      · intro hEq
        rw [← Option.some.inj hEq] at hFound
        exact absurd hFound.symm hKey
      · intro hEq
        contradiction
    · rw [hEntry, if_neg hSame]

/- Changing a value in its place. -/
theorem found?_modify
    [DecidableEq K]
    (hWhole : c.Whole)
    (k : K)
    (f : V → V)
    (k' : K) :
    (c.modify k f).found? k' =
      if k' = k then
        (c.found? k).map fun e => { e with value := f e.value }
      else
        c.found? k' := by
  rcases hWhole with ⟨order, age, h⟩
  cases hIndex : c.index[k]? with
  | none =>
      have hSame : c.modify k f = c := by
        unfold modify
        rw [hIndex]
      rw [hSame]
      by_cases hKey : k' = k
      · rw [if_pos hKey, hKey]
        simp [found?, hIndex]
      · rw [if_neg hKey]
  | some i =>
      rcases h.entry?_of_index hIndex with ⟨e, hEntry, hKey⟩
      have hModify :
          c.modify k f =
            c.modifySlot i fun e =>
              { e with value := f e.value } := by
        unfold modify
        rw [hIndex]
      have hFound : c.found? k = some e := by
        simp [found?, hIndex, hEntry]
      have hHeld : (c.modify k f).Holds order age := by
        rw [hModify]
        exact h.modifySlot i (fun _ => rfl)
      have hOwn :
          Cache.entry? (c.modify k f) i =
            some { e with value := f e.value } := by
        rw [hModify, entry?_modifySlot, if_pos rfl, hEntry]
        rfl
      have hOthers :
          ∀ j, j ≠ i →
            Cache.entry? (c.modify k f) j = c.entry? j := by
        intro j hOther
        rw [hModify, entry?_modifySlot, if_neg hOther]
      rw [h.found?_change hHeld hIndex hOwn hKey hOthers, hFound]
      rfl

theorem kept?_modify
    [DecidableEq K]
    (hWhole : c.Whole)
    (k : K)
    (f : V → V)
    (k' : K) :
    (c.modify k f).kept? k' =
      if k' = k then (c.kept? k).map f else c.kept? k' := by
  unfold kept?
  rw [found?_modify hWhole]
  split
  · simp only [Option.map_map, Function.comp_def]
  · rfl

/- Two changes in one place are one change. -/
theorem modify_modify
    (c : Cache K V)
    (k : K)
    (f g : V → V) :
    (c.modify k f).modify k g = c.modify k (g ∘ f) := by
  cases hIndex : c.index[k]? with
  | none => simp [modify, hIndex]
  | some i =>
      have hSlots :
          (c.slots.modify i (Option.map fun e =>
              { e with value := f e.value })).modify i
            (Option.map fun e =>
              { e with value := g e.value }) =
          c.slots.modify i (Option.map fun e =>
            { e with value := g (f e.value) }) := by
        apply Array.ext_getElem?
        intro j
        simp only [Array.getElem?_modify]
        split
        · simp only [Option.map_map, Function.comp_def]
        · rfl
      simp only [modify, modifySlot, hIndex, hSlots,
        Function.comp_apply]

------------------------------------------------------------
-- Letting go
------------------------------------------------------------

namespace Fades

/- What is kept in the end was kept in the beginning. -/
theorem kept?_eq
    (hFades : c.Fades d)
    {k : K}
    {v : V}
    (hKept : d.kept? k = some v) :
    c.kept? k = some v := by
  rcases hFades k with hNone | hSame
  · rw [hNone] at hKept
    contradiction
  · rw [← hSame, hKept]

/- An entry that is found in the end was there before. -/
theorem isSome_found?
    (hFades : c.Fades d)
    {k : K}
    (hSome : (d.found? k).isSome) :
    (c.found? k).isSome := by
  rcases Option.isSome_iff_exists.mp hSome with ⟨e, hFound⟩
  have hKept : d.kept? k = some e.value := by
    unfold kept?
    rw [hFound]
    rfl
  rcases Option.map_eq_some_iff.mp (hFades.kept?_eq hKept) with
    ⟨f, hBefore, _⟩
  rw [hBefore]
  rfl

end Fades

namespace Sheds

theorem refl
    (c : Cache K V) :
    c.Sheds c := by
  intro k
  exact .inr rfl

theorem trans
    (hFirst : c.Sheds d)
    (hSecond : d.Sheds e) :
    c.Sheds e := by
  intro k
  rcases hSecond k with hNone | hSame
  · exact .inl hNone
  · rw [hSame]
    exact hFirst k

/- Where entries only go, values only go. -/
theorem fades
    (hSheds : c.Sheds d) :
    c.Fades d := by
  intro k
  unfold kept?
  rcases hSheds k with hNone | hSame
  · exact .inl (by rw [hNone]; rfl)
  · exact .inr (by rw [hSame])

end Sheds

variable [Std.LawfulEqOrd K]

/- Slots that are emptied leave the entries of the others. -/
theorem sheds_dropAll
    (hWhole : c.Whole)
    (slots : List Nat) :
    c.Sheds (slots.foldl drop c) := by
  intro k
  have hWhole' := (c.follows_dropAll slots 0).whole hWhole
  cases hFound : (slots.foldl drop c).found? k with
  | none => exact .inl rfl
  | some e =>
      right
      rcases (hWhole'.found?_eq_some k e).mp hFound with
        ⟨i, hEntry, hKey⟩
      rw [entry?_dropAll] at hEntry
      by_cases hDropped : i ∈ slots
      · simp [hDropped] at hEntry
      · rw [if_neg hDropped] at hEntry
        have hOld :=
          (hWhole.found?_eq_some k e).mpr ⟨i, hEntry, hKey⟩
        exact hOld.symm

theorem sheds_evict
    (hWhole : c.Whole)
    (n : Nat) :
    c.Sheds (evict n c) := by
  induction n generalizing c with
  | zero => exact Sheds.refl c
  | succ n ih =>
      unfold evict
      split
      · rename_i i _
        have hDropped := (c.follows_drop i 0).whole hWhole
        exact (sheds_dropAll hWhole [i]).trans (ih hDropped)
      · exact Sheds.refl c

theorem sheds_purge
    (hWhole : c.Whole)
    (now : Nat) :
    c.Sheds (c.purge now).1 :=
  sheds_dropAll hWhole (c.expiredSlots now)

theorem fades_purge
    (hWhole : c.Whole)
    (now : Nat) :
    c.Fades (c.purge now).1 :=
  (sheds_purge hWhole now).fades

/- Room is made for as many entries as there may be. -/
theorem Whole.stored_shrink_le
    (hWhole : c.Whole)
    (now : Nat) :
    (c.shrink now).stored ≤ c.capacity := by
  have hPurged := (c.follows_purge now).whole hWhole
  have hCapacity := (c.follows_purge now).capacity_eq
  unfold shrink
  split
  · have hEvicted :=
      (follows_evict (c.purge now).1
        ((c.purge now).1.stored - (c.purge now).1.capacity)
        now).whole hPurged
    rcases hPurged with ⟨order, age, h⟩
    rcases hEvicted with ⟨order', age', h'⟩
    rw [h'.stored_entries, h.entries_evict, List.length_take,
      h.stored_entries, hCapacity]
    omega
  · rename_i hEnough
    exact Nat.not_lt.mp hEnough

theorem sheds_shrink
    (hWhole : c.Whole)
    (now : Nat) :
    c.Sheds (c.shrink now) := by
  have hPurged := (c.follows_purge now).whole hWhole
  unfold shrink
  split
  · exact (sheds_purge hWhole now).trans (sheds_evict hPurged _)
  · exact Sheds.refl c

------------------------------------------------------------
-- Looking up and putting
------------------------------------------------------------

variable [DecidableEq K]

/- The slot of a key is emptied. -/
theorem found?_drop
    (hWhole : c.Whole)
    {k : K}
    {i : Nat}
    (hIndex : c.index[k]? = some i)
    (k' : K) :
    (c.drop i).found? k' =
      if k' = k then none else c.found? k' := by
  have hWhole' := (c.follows_drop i 0).whole hWhole
  have hHolds := hWhole
  rcases hHolds with ⟨order, age, h⟩
  rcases h.entry?_of_index hIndex with ⟨e, hEntry, hKey⟩
  by_cases hSame : k' = k
  · rw [if_pos hSame, hSame]
    cases hFound : (c.drop i).found? k with
    | none => rfl
    | some f =>
        rcases (hWhole'.found?_eq_some k f).mp hFound with
          ⟨j, hSlot, hOther⟩
        rw [entry?_drop] at hSlot
        by_cases hDropped : j = i
        · simp [hDropped] at hSlot
        · rw [if_neg hDropped] at hSlot
          have hEq :=
            h.slot_unique hSlot hEntry (hOther.trans hKey.symm)
          exact absurd hEq hDropped
  · rw [if_neg hSame]
    apply hWhole.found?_congr hWhole'
    intro j f hOther
    rw [entry?_drop]
    by_cases hDropped : j = i
    · rw [if_pos hDropped, hDropped, hEntry]
      constructor
      · intro hEq
        contradiction
      · intro hEq
        rw [Option.some.inj hEq] at hKey
        exact absurd (hOther.symm.trans hKey) hSame
    · rw [if_neg hDropped]

/-
  A look-up finds a living entry and marks it as used; an
  expired one is dropped.
-/
theorem found?_get
    (hWhole : c.Whole)
    (now : Nat)
    (k k' : K) :
    (c.get now k).1.found? k' =
      if k' = k then
        (c.live? now k).map fun e => { e with lastAccess := now }
      else
        c.found? k' := by
  rw [live?_eq_filter]
  have hHolds := hWhole
  rcases hHolds with ⟨order, age, h⟩
  cases hIndex : c.index[k]? with
  | none =>
      have hNone : c.found? k = none := by
        simp [found?, hIndex]
      have hSame : c.get now k = (c, none) := by
        simp only [get, hIndex]
      rw [hSame, hNone]
      by_cases hKey : k' = k
      · rw [if_pos hKey, hKey, hNone]
        rfl
      · rw [if_neg hKey]
  | some i =>
      rcases h.entry?_of_index hIndex with ⟨e, hEntry, hKey⟩
      have hFound : c.found? k = some e := by
        simp [found?, hIndex, hEntry]
      have hTest := isExpired_eq hIndex now
      rw [hFound, Option.any_some] at hTest
      rw [hFound, Option.filter_some]
      cases hLive : c.isLive now e with
      | false =>
          rw [hLive] at hTest
          rw [get_expired c hIndex hTest, found?_drop hWhole hIndex]
          rfl
      | true =>
          rw [hLive] at hTest
          rcases h.get_live hIndex hEntry hTest with
            ⟨hGot, hOwn, hOthers⟩
          exact h.found?_change hGot hIndex hOwn hKey hOthers k'

/- A look-up keeps all values, or drops one that expired. -/
theorem fades_get
    (hWhole : c.Whole)
    (now : Nat)
    (k : K) :
    c.Fades (c.get now k).1 := by
  intro k'
  unfold kept?
  rw [found?_get hWhole]
  by_cases hSame : k' = k
  · rw [if_pos hSame, hSame, live?_eq_filter]
    cases hFound : c.found? k with
    | none => exact .inl rfl
    | some e =>
        rw [Option.filter_some]
        cases c.isLive now e with
        | true => exact .inr rfl
        | false => exact .inl rfl
  · rw [if_neg hSame]
    exact .inr rfl

/- What a look-up answers is kept, before and after. -/
theorem kept?_of_get
    (hWhole : c.Whole)
    {now : Nat}
    {k : K}
    {v : V}
    (hAnswer : (c.get now k).2 = some v) :
    c.kept? k = some v ∧ (c.get now k).1.kept? k = some v := by
  rw [get_answer] at hAnswer
  rcases Option.map_eq_some_iff.mp hAnswer with
    ⟨e, hLive, hValue⟩
  unfold kept?
  rw [found?_get hWhole, if_pos rfl, hLive]
  rw [live?_eq_filter, Option.filter_eq_some_iff] at hLive
  rw [hLive.1]
  exact ⟨congrArg some hValue, congrArg some hValue⟩

/- A put without a shortage of room only adds its entry. -/
theorem found?_put
    (hWhole : c.Whole)
    (now : Nat)
    (k : K)
    (v : V)
    (hRoom :
      c.index[k]? = none →
        (c.enter ⟨k, v, now, now⟩).stored ≤ c.capacity)
    (k' : K) :
    (c.put now k v).1.found? k' =
      if k' = k then some ⟨k, v, now, now⟩ else c.found? k' := by
  have hHolds := hWhole
  rcases hHolds with ⟨order, age, h⟩
  cases hIndex : c.index[k]? with
  | none =>
      rw [put_of_room c hIndex (hRoom hIndex)]
      exact found?_enter hWhole hIndex k'
  | some i =>
      rcases h.put_stored hIndex now v with
        ⟨hPut, hOwn, hOthers⟩
      exact h.found?_change hPut hIndex hOwn rfl hOthers k'

/- After a put, only the new entry may have been added. -/
theorem found?_put_or_none
    (hWhole : c.Whole)
    (now : Nat)
    (k : K)
    (v : V)
    (k' : K) :
    (c.put now k v).1.found? k' = none ∨
      (c.put now k v).1.found? k' =
        if k' = k then some ⟨k, v, now, now⟩ else c.found? k' := by
  cases hIndex : c.index[k]? with
  | none =>
      have hFollows :=
        c.follows_enter (e := ⟨k, v, now, now⟩) hIndex
      rw [put_new c hIndex]
      rcases sheds_shrink (hFollows.whole hWhole) now k' with
        hNone | hSame
      · exact .inl hNone
      · exact .inr (hSame.trans (found?_enter hWhole hIndex k'))
  | some i =>
      exact
        .inr (found?_put hWhole now k v (by simp [hIndex]) k')

/- So it is with the values. -/
theorem kept?_put
    (hWhole : c.Whole)
    (now : Nat)
    (k : K)
    (v : V)
    (k' : K) :
    (c.put now k v).1.kept? k' = none ∨
      (c.put now k v).1.kept? k' =
        if k' = k then some v else c.kept? k' := by
  unfold kept?
  rcases found?_put_or_none hWhole now k v k' with hNone | hSame
  · exact .inl (by rw [hNone]; rfl)
  · right
    rw [hSame]
    split <;> rfl

end Cache

end OrderWatch
