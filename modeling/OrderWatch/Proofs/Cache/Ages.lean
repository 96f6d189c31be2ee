import OrderWatch.Proofs.Cache.Slots

/-
  What a cache drops, in terms of its entries.

  A cache is dated if the times of its entries go down along
  the list of ages and none is later than the last reading of
  the clock.  As long as the readings do not go back, a cache
  stays dated; the expired slots are then exactly those at
  the old end, so a purge drops all expired entries.

  Main declarations:
    * `Cache.Dated`
    * `Cache.Holds.entries_dropAll`
    * `Cache.Holds.entries_front`
    * `Cache.Holds.entries_purge`
    * `Cache.Holds.entries_evict`
-/

namespace OrderWatch

namespace Cache

variable {K V : Type} [Ord K] [Std.TransOrd K]
variable {c : Cache K V} {order age : List Nat}

------------------------------------------------------------
-- Entries that are kept
------------------------------------------------------------

/- Dropping slots keeps the entries that pass a test. -/
theorem Holds.entries_dropAll
    [Std.LawfulEqOrd K]
    (h : c.Holds order age)
    {slots : List Nat}
    {kept : Entry K V → Bool}
    (hKept :
      ∀ i e, c.entry? i = some e →
        (i ∈ slots ↔ kept e = false)) :
    (slots.foldl Cache.drop c).entries = c.entries.filter kept := by
  rw [(h.dropAll slots).entries_eq, h.entries_eq,
    List.filter_filterMap, List.filterMap_filter]
  apply List.filterMap_congr
  intro i hMem
  rw [entry?_dropAll]
  have hSome := (h.occupied i).mp hMem
  rcases Option.isSome_iff_exists.mp hSome with ⟨e, hEntry⟩
  rw [hEntry, Option.filter_some]
  by_cases hDropped : i ∈ slots
  · have hFails := (hKept i e hEntry).mp hDropped
    simp [hDropped, hFails]
  · have hPasses : kept e = true := by
      rw [← Bool.not_eq_false, ← hKept i e hEntry]
      exact hDropped
    simp [hDropped, hPasses]

/- Emptying the slot of a key drops the entries of the key. -/
theorem Holds.entries_drop
    [Std.LawfulEqOrd K] [DecidableEq K]
    (h : c.Holds order age)
    {i : Nat}
    {e : Entry K V}
    (hEntry : c.entry? i = some e) :
    (c.drop i).entries =
      c.entries.filter fun d => d.key ≠ e.key := by
  have hOne : [i].foldl Cache.drop c = c.drop i := rfl
  rw [← hOne]
  apply h.entries_dropAll
  intro j d hOther
  rw [List.mem_singleton, decide_eq_false_iff_not, not_not]
  constructor
  · intro hSame
    rw [hSame, hEntry] at hOther
    rw [Option.some.inj hOther]
  · intro hKey
    exact h.slot_unique hOther hEntry hKey

/-
  A slot that has moved to the front brings its new entry on
  top, and the entries of the other keys stay.
-/
theorem Holds.entries_front
    [DecidableEq K]
    (h : c.Holds order age)
    {d : Cache K V}
    {age' : List Nat}
    {i : Nat}
    {e e' : Entry K V}
    (hMoved : d.Holds (i :: order.filter (· ≠ i)) age')
    (hBefore : c.entry? i = some e)
    (hAfter : d.entry? i = some e')
    (hOthers : ∀ j, j ≠ i → d.entry? j = c.entry? j) :
    d.entries =
      e' :: c.entries.filter fun f => f.key ≠ e.key := by
  rw [hMoved.entries_eq, h.entries_eq,
    List.filterMap_cons_some hAfter, List.filter_filterMap,
    List.filterMap_filter]
  congr 1
  apply List.filterMap_congr
  intro j hMem
  have hSome := (h.occupied j).mp hMem
  rcases Option.isSome_iff_exists.mp hSome with ⟨f, hEntry⟩
  by_cases hSame : j = i
  · rw [hSame, hBefore, Option.filter_some]
    simp
  · have hKey : f.key ≠ e.key := by
      intro hKey
      exact hSame (h.slot_unique hEntry hBefore hKey)
    rw [hOthers j hSame, hEntry, Option.filter_some]
    simp [hSame, hKey]

/- A new entry comes on top of those that are there. -/
theorem Holds.entries_enter
    [Std.LawfulEqOrd K]
    (h : c.Holds order age)
    {e : Entry K V}
    (hNew : c.index[e.key]? = none) :
    (c.enter e).entries = e :: c.entries := by
  rcases h.enter hNew with ⟨i, hOut, hEntered, hEntry⟩
  have hOwn : Cache.entry? (c.enter e) i = some e := by
    rw [hEntry, if_pos rfl]
  rw [hEntered.entries_eq, h.entries_eq,
    List.filterMap_cons_some hOwn]
  congr 1
  apply List.filterMap_congr
  intro j hMem
  have hOther : j ≠ i := by
    intro hSame
    exact hOut (hSame ▸ hMem)
  rw [hEntry, if_neg hOther]

/- The entry longest unused is at the bottom. -/
theorem Holds.entries_drop_last
    [Std.LawfulEqOrd K]
    (h : c.Holds order age)
    {i : Nat}
    (hLast : c.recency.last = some i) :
    (c.drop i).entries = c.entries.dropLast := by
  rw [h.spells_order.last_eq] at hLast
  rcases List.getLast?_eq_some_iff.mp hLast with ⟨xs, rfl⟩
  have hNodup := h.spells_order.nodup
  have hSome := (h.occupied i).mp (by simp)
  rcases Option.isSome_iff_exists.mp hSome with ⟨e, hEntry⟩
  have hRest :
      xs.filterMap (Cache.entry? (c.drop i)) =
        xs.filterMap c.entry? := by
    apply List.filterMap_congr
    intro j hMem
    have hOther : j ≠ i := by
      intro hSame
      rw [List.nodup_append] at hNodup
      exact hNodup.2.2 j hMem i (by simp) hSame
    rw [entry?_drop, if_neg hOther]
  rw [(h.drop i).entries_eq, h.entries_eq,
    Chain.filter_ne_of_split xs [] hNodup, List.append_nil,
    hRest, List.filterMap_append]
  simp [hEntry]

/- Evicting entries takes them off the bottom. -/
theorem Holds.entries_evict
    [Std.LawfulEqOrd K]
    (h : c.Holds order age)
    (n : Nat) :
    (evict n c).entries =
      c.entries.take (c.entries.length - n) := by
  induction n generalizing c order age with
  | zero => simp [Cache.evict]
  | succ n ih =>
      cases hLast : c.recency.last with
      | none =>
          have hNone : order = [] := by
            rw [h.spells_order.last_eq] at hLast
            exact List.getLast?_eq_none_iff.mp hLast
          have hEmpty : c.entries = [] := by
            rw [h.entries_eq, hNone]
            rfl
          simp [Cache.evict, hLast, hEmpty]
      | some i =>
          have hDropped := h.entries_drop_last hLast
          simp only [Cache.evict, hLast]
          rw [ih (h.drop i), hDropped, List.length_dropLast,
            List.dropLast_eq_take, List.take_take]
          congr 1
          omega

end Cache

------------------------------------------------------------
-- Times
------------------------------------------------------------

namespace Cache

section Times

variable {K V : Type} [Ord K]
variable {c : Cache K V} {age : List Nat}

/- When the entries of some slots were put. -/
def times (c : Cache K V) (slots : List Nat) : List Nat :=
  slots.filterMap fun i => (c.entry? i).map Entry.insertedAt

/-
  The entries were put in the order of the given slots, the
  latest first, and none after the last reading of the clock.
-/
def Dated (c : Cache K V) (age : List Nat) (last : Nat) : Prop :=
  (last :: c.times age).Pairwise (· ≥ ·)

namespace Dated

/- Time may go on. -/
theorem later
    {last now : Nat}
    (hDated : c.Dated age last)
    (hLater : last ≤ now) :
    c.Dated age now := by
  have hParts := List.pairwise_cons.mp hDated
  refine List.pairwise_cons.mpr ⟨?_, hParts.2⟩
  intro time hMem
  exact le_trans (hParts.1 time hMem) hLater

/- Slots may leave. -/
theorem sublist
    {d : Cache K V}
    {age' : List Nat}
    {last : Nat}
    (hDated : c.Dated age last)
    (hFewer : (d.times age').Sublist (c.times age)) :
    d.Dated age' last :=
  List.Pairwise.sublist (hFewer.cons_cons last) hDated

/- The slot of an entry that has just been put comes first. -/
theorem newest
    {d : Cache K V}
    {age' : List Nat}
    {i last now : Nat}
    {e : Entry K V}
    (hDated : c.Dated age last)
    (hLater : last ≤ now)
    (hEntry : d.entry? i = some e)
    (hTime : e.insertedAt = now)
    (hFewer : (d.times age').Sublist (c.times age)) :
    d.Dated (i :: age') now := by
  have hRest : d.Dated age' now :=
    (hDated.later hLater).sublist hFewer
  have hTimes : d.times (i :: age') = now :: d.times age' := by
    simp [times, hEntry, hTime]
  unfold Dated
  rw [hTimes]
  refine List.pairwise_cons.mpr ⟨?_, hRest⟩
  intro time hMem
  rcases List.mem_cons.mp hMem with rfl | hMem
  · exact le_refl _
  · exact (List.pairwise_cons.mp hRest).1 time hMem

end Dated

/- Slots that keep the times of their entries. -/
theorem times_sublist
    {d : Cache K V}
    {age' : List Nat}
    (hFewer : age'.Sublist age)
    (hSame :
      ∀ i ∈ age',
        (d.entry? i).map Entry.insertedAt =
          (c.entry? i).map Entry.insertedAt) :
    (d.times age').Sublist (c.times age) := by
  have hTimes : d.times age' = c.times age' :=
    List.filterMap_congr hSame
  rw [hTimes]
  exact hFewer.filterMap _

end Times

variable {K V : Type} [Ord K] [Std.TransOrd K]
variable {c : Cache K V} {order age : List Nat}

------------------------------------------------------------
-- Expired entries
------------------------------------------------------------

/- A test that fails from some place on is passed before it. -/
theorem takeWhile_eq_filter
    {α : Type}
    {p : α → Bool}
    {xs : List α}
    (hDown : xs.Pairwise fun a b => p b = true → p a = true) :
    xs.takeWhile p = xs.filter p := by
  induction xs with
  | nil => rfl
  | cons x xs ih =>
      rcases List.pairwise_cons.mp hDown with ⟨hHead, hTail⟩
      by_cases hPass : p x = true
      · rw [List.takeWhile_cons_of_pos hPass,
          List.filter_cons_of_pos hPass, ih hTail]
      · have hNone : xs.filter p = [] := by
          rw [List.filter_eq_nil_iff]
          intro y hMem hLater
          exact hPass (hHead y hMem hLater)
        rw [List.takeWhile_cons_of_neg hPass,
          List.filter_cons_of_neg hPass, hNone]

/- The older of two entries expires first. -/
theorem Holds.isExpired_down
    {last : Nat}
    (h : c.Holds order age)
    (hDated : c.Dated age last)
    (now : Nat) :
    age.Pairwise fun i j =>
      c.isExpired now i = true → c.isExpired now j = true := by
  have hTimes := (List.pairwise_cons.mp hDated).2
  unfold times at hTimes
  rw [List.pairwise_filterMap] at hTimes
  apply hTimes.imp_of_mem
  intro i j hNewer hOlder hDown hExpired
  have hFilled := (h.occupied i).mp ((h.mem_age i).mp hNewer)
  have hFilled' := (h.occupied j).mp ((h.mem_age j).mp hOlder)
  rcases Option.isSome_iff_exists.mp hFilled with ⟨d, hEntry⟩
  rcases Option.isSome_iff_exists.mp hFilled' with
    ⟨e, hEntry'⟩
  have hTime : d.insertedAt ≥ e.insertedAt :=
    hDown d.insertedAt (by simp [hEntry])
      e.insertedAt (by simp [hEntry'])
  unfold isExpired isLive at hExpired ⊢
  simp only [hEntry, hEntry', Option.any_some, Bool.not_eq_true',
    decide_eq_false_iff_not] at hExpired ⊢
  omega

/- The expired slots are those of expired entries. -/
theorem Holds.mem_expiredSlots
    {last now : Nat}
    (h : c.Holds order age)
    (hDated : c.Dated age last)
    (i : Nat) :
    i ∈ c.expiredSlots now ↔
      i ∈ order ∧ c.isExpired now i = true := by
  have hDown := h.isExpired_down hDated now
  rw [← List.pairwise_reverse] at hDown
  unfold expiredSlots
  rw [h.spells_age.backwardWhile_eq,
    takeWhile_eq_filter hDown, List.mem_filter,
    List.mem_reverse, h.mem_age]

/- There are as many expired slots as expired entries. -/
theorem Holds.length_expiredSlots
    {last : Nat}
    (h : c.Holds order age)
    (hDated : c.Dated age last)
    (now : Nat) :
    (c.expiredSlots now).length =
      (c.entries.filter fun e => !c.isLive now e).length := by
  have hDown := h.isExpired_down hDated now
  rw [← List.pairwise_reverse] at hDown
  unfold expiredSlots
  rw [h.spells_age.backwardWhile_eq,
    takeWhile_eq_filter hDown, List.filter_reverse,
    List.length_reverse, (h.perm.filter _).length_eq,
    h.entries_eq, List.filter_filterMap,
    List.length_filterMap_eq_countP,
    ← List.countP_eq_length_filter]
  apply List.countP_congr
  intro i hMem
  have hFilled := (h.occupied i).mp hMem
  rcases Option.isSome_iff_exists.mp hFilled with ⟨e, hEntry⟩
  unfold isExpired
  rw [hEntry, Option.filter_some]
  cases hLive : c.isLive now e <;> simp [hLive]

/- What is not expired lives. -/
theorem Holds.size_eq
    {last : Nat}
    (h : c.Holds order age)
    (hDated : c.Dated age last)
    (now : Nat) :
    c.size now = (c.entries.filter (c.isLive now)).length := by
  have hSplit :=
    List.length_eq_length_filter_add
      (l := c.entries) (c.isLive now)
  unfold size
  rw [h.stored_entries, h.length_expiredSlots hDated now]
  omega

/- A purge drops the expired entries. -/
theorem Holds.entries_purge
    [Std.LawfulEqOrd K]
    {last : Nat}
    (h : c.Holds order age)
    (hDated : c.Dated age last)
    (now : Nat) :
    (c.purge now).1.entries =
      c.entries.filter (c.isLive now) := by
  unfold purge
  apply h.entries_dropAll
  intro i e hEntry
  rw [h.mem_expiredSlots hDated, h.occupied]
  unfold isExpired
  rw [hEntry]
  simp

end Cache

end OrderWatch
