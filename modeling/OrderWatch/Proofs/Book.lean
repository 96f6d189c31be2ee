import OrderWatch.Book
import OrderWatch.Proofs.Cache.Kept

/-
  What a book has on record.

  Under a name there may be two records, an active one and,
  from an earlier time, a retired one.  Updates of the name
  go to the active one, and to the retired one only if there
  is no other; this record is called the latest.  Whatever is
  done to a book other than starting an order and writing a
  record only lets records go.

  Main declarations:
    * `Book.Records`, `Book.latest?`
    * `Book.Fades`
    * `Book.fades_stop`, `Book.fades_find`
    * `Book.latest?_of_find`
    * `Book.latest?_start`, `Book.latest?_write`
-/

namespace OrderWatch

namespace Book

/- A record is kept under a name, active or retired. -/
def Records (b : Book) (id : OrderId) (o : Order) : Prop :=
  b.active[id]? = some o ∨ b.retired.kept? id = some o

/- The record that updates of a name go to. -/
def latest? (b : Book) (id : OrderId) : Option Order :=
  b.active[id]?.or (b.retired.kept? id)

/- The parts of the cache of a book hold together. -/
def Whole (b : Book) : Prop :=
  b.retired.Whole

/- All records of `d` are records of `b`. -/
structure Fades (b d : Book) : Prop where
  records : ∀ id o, d.Records id o → b.Records id o
  latest :
    ∀ id, d.latest? id = none ∨ d.latest? id = b.latest? id

variable {b d : Book} {id : OrderId} {o : Order} {now : Nat}

theorem records_of_latest?
    (hLatest : b.latest? id = some o) :
    b.Records id o := by
  unfold latest? at hLatest
  rcases Option.or_eq_some_iff.mp hLatest with hActive | hKept
  · exact .inl hActive
  · exact .inr hKept.2

theorem latest?_of_active
    (hActive : b.active[id]? = some o) :
    b.latest? id = some o := by
  unfold latest?
  rw [hActive, Option.some_or]

theorem latest?_of_retired
    (hActive : b.active[id]? = none) :
    b.latest? id = b.retired.kept? id := by
  unfold latest?
  rw [hActive, Option.none_or]

theorem whole_empty
    (capacity ttl : Nat) :
    (empty capacity ttl).Whole :=
  Cache.whole_empty capacity ttl

------------------------------------------------------------
-- Letting go
------------------------------------------------------------

namespace Fades

theorem refl
    (b : Book) :
    b.Fades b where
  records := fun _ _ hRecord => hRecord
  latest := fun _ => .inr rfl

end Fades

/- Letting go of retired orders. -/
theorem fades_of_retired
    {retired : Cache OrderId Order}
    (hFades : b.retired.Fades retired) :
    b.Fades { b with retired } where
  records := by
    intro id o hRecord
    rcases hRecord with hActive | hKept
    · exact .inl hActive
    · exact .inr (hFades.kept?_eq hKept)
  latest := by
    intro id
    unfold latest?
    cases hActive : b.active[id]? with
    | some o => exact .inr rfl
    | none =>
        simp only [Option.none_or]
        exact hFades id

theorem fades_purge
    (hWhole : b.Whole)
    (now : Nat) :
    b.Fades (b.purge now).1 :=
  fades_of_retired (Cache.fades_purge hWhole now)

theorem whole_purge
    (hWhole : b.Whole)
    (now : Nat) :
    (b.purge now).1.Whole :=
  (Cache.follows_purge b.retired now).whole hWhole

theorem fades_findRetired
    (hWhole : b.Whole)
    (now : Nat)
    (id : OrderId) :
    b.Fades (b.findRetired now id).1 :=
  fades_of_retired (Cache.fades_get hWhole now id)

theorem whole_findRetired
    (hWhole : b.Whole)
    (now : Nat)
    (id : OrderId) :
    (b.findRetired now id).1.Whole :=
  (Cache.follows_get b.retired now id).whole hWhole

------------------------------------------------------------
-- Looking up
------------------------------------------------------------

theorem isActive_eq
    (b : Book)
    (id : OrderId) :
    b.isActive id = b.active[id]?.isSome := by
  unfold isActive
  rw [Std.ExtTreeMap.contains_eq_isSome_getElem?]

theorem isActive_iff
    (b : Book)
    (id : OrderId) :
    b.isActive id = true ↔ ∃ o, b.active[id]? = some o := by
  rw [isActive_eq, Option.isSome_iff_exists]

theorem find_of_active
    (hActive : b.active[id]? = some o)
    (now : Nat) :
    b.find now id = (b, some o) := by
  unfold find
  rw [hActive]

theorem find_of_retired
    (hActive : b.active[id]? = none)
    (now : Nat) :
    b.find now id = b.findRetired now id := by
  unfold find
  rw [hActive]

theorem fades_find
    (hWhole : b.Whole)
    (now : Nat)
    (id : OrderId) :
    b.Fades (b.find now id).1 := by
  cases hActive : b.active[id]? with
  | some o =>
      rw [find_of_active hActive]
      exact Fades.refl b
  | none =>
      rw [find_of_retired hActive]
      exact fades_findRetired hWhole now id

/- The cache goes on from what it was. -/
theorem follows_find
    (b : Book)
    (now : Nat)
    (id : OrderId) :
    b.retired.Follows (b.find now id).1.retired now := by
  cases hActive : b.active[id]? with
  | some o =>
      rw [find_of_active hActive]
      exact Cache.Follows.refl b.retired now
  | none =>
      rw [find_of_retired hActive]
      exact b.retired.follows_get now id

theorem whole_find
    (hWhole : b.Whole)
    (now : Nat)
    (id : OrderId) :
    (b.find now id).1.Whole :=
  (b.follows_find now id).whole hWhole

/- What is found is the latest record, before and after. -/
theorem latest?_of_find
    (hWhole : b.Whole)
    (hFound : (b.find now id).2 = some o) :
    b.latest? id = some o ∧
      (b.find now id).1.latest? id = some o := by
  cases hActive : b.active[id]? with
  | some p =>
      rw [find_of_active hActive] at hFound ⊢
      rw [← hFound]
      exact
        ⟨latest?_of_active hActive, latest?_of_active hActive⟩
  | none =>
      rw [find_of_retired hActive] at hFound ⊢
      rcases Cache.kept?_of_get hWhole hFound with
        ⟨hBefore, hAfter⟩
      have hStill :
          (b.findRetired now id).1.active[id]? = none :=
        hActive
      rw [latest?_of_retired hActive,
        latest?_of_retired hStill]
      exact ⟨hBefore, hAfter⟩

------------------------------------------------------------
-- Stopping
------------------------------------------------------------

theorem stop_of_active
    (hActive : b.active[id]? = some o)
    (now : Nat) :
    b.stop now id =
      ({ active := b.active.erase id
         retired := (b.retired.put now id o).1 },
        some (b.retired.put now id o).2) := by
  unfold stop
  rw [hActive]

theorem stop_of_inactive
    (hActive : b.active[id]? = none)
    (now : Nat) :
    b.stop now id = (b, none) := by
  unfold stop
  rw [hActive]

/- Stopping an order takes that one off, and no other. -/
theorem active_stop
    (b : Book)
    (now : Nat)
    (id k : OrderId) :
    (b.stop now id).1.active[k]? =
      if k = id then none else b.active[k]? := by
  cases hActive : b.active[id]? with
  | none =>
      rw [stop_of_inactive hActive]
      split
      · rename_i hSame
        rw [hSame, hActive]
      · rfl
  | some o =>
      rw [stop_of_active hActive]
      change (b.active.erase id)[k]? = _
      rw [Std.ExtTreeMap.getElem?_erase]
      by_cases hSame : k = id
      · simp [hSame]
      · simp [hSame, Ne.symm hSame]

theorem follows_stop
    (b : Book)
    (now : Nat)
    (id : OrderId) :
    b.retired.Follows (b.stop now id).1.retired now := by
  cases hActive : b.active[id]? with
  | none =>
      rw [stop_of_inactive hActive]
      exact Cache.Follows.refl b.retired now
  | some o =>
      rw [stop_of_active hActive]
      exact b.retired.follows_put now id o

theorem whole_stop
    (hWhole : b.Whole)
    (now : Nat)
    (id : OrderId) :
    (b.stop now id).1.Whole :=
  (b.follows_stop now id).whole hWhole

/-
  An order that is stopped takes the place of a retired one
  of its name, so its record stays the latest or is gone.
-/
theorem fades_stop
    (hWhole : b.Whole)
    (now : Nat)
    (id : OrderId) :
    b.Fades (b.stop now id).1 := by
  cases hActive : b.active[id]? with
  | none =>
      rw [stop_of_inactive hActive]
      exact Fades.refl b
  | some o =>
      have hErased := b.active_stop now id
      have hKept := Cache.kept?_put hWhole now id o
      rw [stop_of_active hActive] at hErased ⊢
      refine { records := ?_, latest := ?_ }
      · intro k p hRecord
        rcases hRecord with hStill | hPut
        · rw [hErased] at hStill
          by_cases hSame : k = id
          · simp [hSame] at hStill
          · rw [if_neg hSame] at hStill
            exact .inl hStill
        · rcases hKept k with hNone | hFound
          · rw [hNone] at hPut
            contradiction
          · rw [hFound] at hPut
            by_cases hSame : k = id
            · rw [if_pos hSame] at hPut
              left
              rw [hSame, hActive, hPut]
            · rw [if_neg hSame] at hPut
              exact .inr hPut
      · intro k
        unfold latest?
        simp only [hErased]
        by_cases hSame : k = id
        · rw [if_pos hSame, Option.none_or, hSame, hActive]
          have hOwn := hKept id
          rwa [if_pos rfl] at hOwn
        · rw [if_neg hSame]
          cases hOther : b.active[k]? with
          | some p => exact .inr rfl
          | none =>
              have hRest := hKept k
              rwa [if_neg hSame] at hRest

------------------------------------------------------------
-- Starting and writing
------------------------------------------------------------

theorem getElem?_insert
    (active : Std.ExtTreeMap OrderId Order compare)
    (o : Order)
    (id : OrderId) :
    (active.insert o.id o)[id]? =
      if id = o.id then some o else active[id]? := by
  rw [Std.ExtTreeMap.getElem?_insert]
  by_cases hSame : id = o.id
  · simp [hSame]
  · simp [hSame, Ne.symm hSame]

theorem records_start
    {p : Order}
    (hRecord : (b.start o).Records id p) :
    (id = o.id ∧ p = o) ∨ b.Records id p := by
  rcases hRecord with hActive | hKept
  · have hInserted := hActive
    unfold start at hInserted
    rw [getElem?_insert] at hInserted
    by_cases hSame : id = o.id
    · rw [if_pos hSame] at hInserted
      exact .inl ⟨hSame, (Option.some.inj hInserted).symm⟩
    · rw [if_neg hSame] at hInserted
      exact .inr (.inl hInserted)
  · exact .inr (.inr hKept)

theorem latest?_start
    (b : Book)
    (o : Order)
    (id : OrderId) :
    (b.start o).latest? id =
      if id = o.id then some o else b.latest? id := by
  unfold latest? start
  rw [getElem?_insert]
  by_cases hSame : id = o.id
  · rw [if_pos hSame, if_pos hSame, Option.some_or]
  · rw [if_neg hSame, if_neg hSame]

theorem follows_write
    (b : Book)
    (o : Order)
    (now : Nat) :
    b.retired.Follows (b.write o).retired now := by
  unfold write
  split
  · exact Cache.Follows.refl b.retired now
  · exact b.retired.follows_modify o.id (fun _ => o) now

theorem whole_write
    (hWhole : b.Whole)
    (o : Order) :
    (b.write o).Whole :=
  (b.follows_write o 0).whole hWhole

theorem write_of_active
    {p : Order}
    (hActive : b.active[o.id]? = some p) :
    b.write o = { b with active := b.active.insert o.id o } := by
  unfold write isActive
  rw [Std.ExtTreeMap.contains_eq_isSome_getElem?, hActive]
  rfl

theorem write_of_retired
    (hActive : b.active[o.id]? = none) :
    b.write o =
      { b with retired := b.retired.modify o.id fun _ => o } := by
  unfold write isActive
  rw [Std.ExtTreeMap.contains_eq_isSome_getElem?, hActive]
  rfl

/- What is written is on record instead of the latest. -/
theorem records_write
    (hWhole : b.Whole)
    {p : Order}
    (hRecord : (b.write o).Records id p) :
    (id = o.id ∧ p = o) ∨ b.Records id p := by
  cases hActive : b.active[o.id]? with
  | some q =>
      rw [write_of_active hActive] at hRecord
      exact records_start hRecord
  | none =>
      rw [write_of_retired hActive] at hRecord
      rcases hRecord with hStill | hKept
      · exact .inr (.inl hStill)
      · have hChanged := hKept
        rw [Cache.kept?_modify hWhole] at hChanged
        by_cases hSame : id = o.id
        · rw [if_pos hSame] at hChanged
          rcases Option.map_eq_some_iff.mp hChanged with
            ⟨q, _, hEq⟩
          exact .inl ⟨hSame, hEq.symm⟩
        · rw [if_neg hSame] at hChanged
          exact .inr (.inr hChanged)

/- The latest record of a name is the one to be written. -/
theorem latest?_write
    (hWhole : b.Whole)
    {own : OrderId}
    {p : Order}
    (hId : o.id = own)
    (hLatest : b.latest? own = some p)
    (id : OrderId) :
    (b.write o).latest? id =
      if id = own then some o else b.latest? id := by
  subst hId
  cases hActive : b.active[o.id]? with
  | some q =>
      rw [write_of_active hActive]
      exact latest?_start b o id
  | none =>
      rw [latest?_of_retired hActive] at hLatest
      rw [write_of_retired hActive]
      unfold latest?
      simp only [Cache.kept?_modify hWhole, hLatest]
      by_cases hSame : id = o.id
      · rw [if_pos hSame, if_pos hSame, hSame, hActive]
        rfl
      · rw [if_neg hSame, if_neg hSame]

/- A record that is written twice is what it is at last. -/
theorem write_write
    (b : Book)
    {p : Order}
    (hId : p.id = o.id) :
    (b.write o).write p = b.write p := by
  cases hActive : b.active[o.id]? with
  | some q =>
      have hOwn : b.active[p.id]? = some q := by
        rw [hId, hActive]
      have hAgain :
          (b.active.insert o.id o)[p.id]? = some o := by
        rw [getElem?_insert, if_pos hId]
      have hInsert :
          (b.active.insert o.id o).insert p.id p =
            b.active.insert p.id p := by
        apply Std.ExtTreeMap.ext_getElem?
        intro k
        rw [getElem?_insert, getElem?_insert, getElem?_insert,
          hId]
        by_cases hSame : k = o.id
        · rw [if_pos hSame, if_pos hSame]
        · rw [if_neg hSame, if_neg hSame, if_neg hSame]
      rw [write_of_active hActive, write_of_active hOwn,
        write_of_active hAgain, hInsert]
  | none =>
      have hOwn : b.active[p.id]? = none := by
        rw [hId, hActive]
      have hAgain : (b.write o).active[p.id]? = none := by
        rw [write_of_retired hActive, hOwn]
      rw [write_of_retired hAgain, write_of_retired hActive,
        write_of_retired hOwn, hId, Cache.modify_modify]
      rfl

end Book

end OrderWatch
