import OrderWatch.Proofs.Book.Places
import OrderWatch.Proofs.Book.Simulation
import OrderWatch.Proofs.Cache.Stored

/-
  What the update of an order leaves as it is in a book.

  An update looks a name up, writes the record that is found,
  and may retire the order.  Everything under other names
  stays, with one exception: an order that is retired and has
  not been so before may push others out of a full cache.
  Those that still live go only if they take up all the room
  themselves.

  Main declarations:
    * `Book.Displaced`, `Book.Frame`
    * `Book.frame_find`, `Book.frame_update`
    * `Book.SameNames`, `Book.sameNames_write`
-/

namespace OrderWatch

------------------------------------------------------------
-- Frames
------------------------------------------------------------

namespace Book

variable {b d e : Book} {id : OrderId} {p : Order} {now : Nat}

/-
  The retired order `k` has gone because the order `id` has
  been retired into a full cache.
-/
structure Displaced
    (b d : Book)
    (id k : OrderId)
    (now : Nat) : Prop where
  gone : d.retired.found? k = none
  before : b.isActive id = true
  after : d.isActive id = false
  added : b.retired.found? id = none
  full : b.retired.capacity ≤ b.retired.stored
  /- If it has lived, there are too many that live. -/
  crowded :
    b.retired.contains now k = true →
      b.retired.capacity ≤ b.retiredCount now

/-
  What the book `b` has under other names than `id` is in the
  book `d` as well, and so is a retired order `id` as long as
  one of its name is active.
-/
structure Frame
    (b d : Book)
    (id : OrderId)
    (now : Nat) : Prop where
  active : ∀ k, k ≠ id → d.active[k]? = b.active[k]?
  retired :
    ∀ k, k ≠ id →
      d.retired.found? k = b.retired.found? k ∨
        b.Displaced d id k now
  own :
    b.isActive id = true → d.isActive id = true →
      d.retired = b.retired
  inactive : b.isActive id = false → d.isActive id = false

/- One thing after another, if the first retires nothing. -/
theorem Frame.trans
    (hFirst : b.Frame d id now)
    (hSecond : d.Frame e id now)
    (hStays : d.isActive id = b.isActive id) :
    b.Frame e id now where
  active := by
    intro k hOther
    rw [hSecond.active k hOther, hFirst.active k hOther]
  retired := by
    intro k hOther
    cases hOwn : b.isActive id with
    | true =>
        have hActive : d.isActive id = true := by
          rw [hStays, hOwn]
        have hRetired := hFirst.own hOwn hActive
        have hLast := hSecond.retired k hOther
        rw [hRetired] at hLast
        rcases hLast with hSame | hGone
        · exact .inl hSame
        · right
          refine
            { gone := hGone.gone, before := hOwn
              after := hGone.after
              added := ?_, full := ?_, crowded := ?_ }
          · rw [← hRetired]
            exact hGone.added
          · rw [← hRetired]
            exact hGone.full
          · unfold retiredCount
            rw [← hRetired]
            exact hGone.crowded
    | false =>
        rcases hSecond.retired k hOther with hSame | hGone
        · rcases hFirst.retired k hOther with hSame' | hGone
          · exact .inl (hSame.trans hSame')
          · have hActive := hGone.before
            rw [hOwn] at hActive
            contradiction
        · have hActive := hGone.before
          rw [hStays, hOwn] at hActive
          contradiction
  own := by
    intro hBefore hAfter
    have hActive : d.isActive id = true := by
      rw [hStays, hBefore]
    rw [hSecond.own hActive hAfter, hFirst.own hBefore hActive]
  inactive := fun hBefore =>
    hSecond.inactive (hFirst.inactive hBefore)

/- Looking an order up is no matter of the others. -/
theorem frame_find
    (hWhole : b.Whole)
    (last now : Nat)
    (id : OrderId) :
    b.Frame (b.find last id).1 id now := by
  have hActive := b.active_find last id
  cases hOwn : b.active[id]? with
  | some o =>
      rw [find_of_active hOwn]
      exact ⟨fun _ _ => rfl, fun _ _ => .inl rfl, fun _ _ => rfl,
        fun hInactive => hInactive⟩
  | none =>
      have hInactive : b.isActive id = false := by
        rw [isActive_eq, hOwn]
        rfl
      refine
        { active := ?_, retired := ?_, own := ?_
          inactive := ?_ }
      · intro k _
        rw [hActive]
      · intro k hOther
        left
        rw [find_of_retired hOwn]
        change (b.retired.get last id).1.found? k = _
        rw [Cache.found?_get hWhole, if_neg hOther]
      · intro hBefore
        rw [hInactive] at hBefore
        contradiction
      · intro _
        rw [isActive_eq, hActive, hOwn]
        rfl

theorem frame_write
    (hWhole : b.Whole)
    (hId : p.id = id)
    (now : Nat) :
    b.Frame (b.write p) id now := by
  subst hId
  have hActive := b.active_write p
  refine
    { active := ?_, retired := ?_, own := ?_, inactive := ?_ }
  · intro k hOther
    rw [hActive, if_neg hOther]
  · intro k hOther
    left
    cases hOwn : b.active[p.id]? with
    | some o => rw [write_of_active hOwn]
    | none =>
        rw [write_of_retired hOwn]
        change (b.retired.modify p.id fun _ => p).found? k = _
        rw [Cache.found?_modify hWhole, if_neg hOther]
  · intro hBefore _
    rw [isActive_eq, Option.isSome_iff_exists] at hBefore
    rcases hBefore with ⟨o, hOwn⟩
    rw [write_of_active hOwn]
  · intro hBefore
    rw [isActive_eq] at hBefore ⊢
    rw [hActive, if_pos rfl, Option.isSome_map, hBefore]

/- An order that is stopped may push others out. -/
theorem frame_stop
    (hWhole : b.Whole)
    (now : Nat)
    (id : OrderId) :
    b.Frame (b.stop now id).1 id now := by
  have hErased := b.active_stop now id
  have hGone : (b.stop now id).1.isActive id = false := by
    rw [isActive_eq, hErased, if_pos rfl]
    rfl
  refine
    { active := ?_, retired := ?_, own := ?_, inactive := ?_ }
  · intro k hOther
    rw [hErased, if_neg hOther]
  · intro k hOther
    cases hOwn : b.active[id]? with
    | none =>
        rw [stop_of_inactive hOwn]
        exact .inl rfl
    | some o =>
        rw [stop_of_active hOwn] at hGone ⊢
        change
          (b.retired.put now id o).1.found? k = _ ∨ _
        rcases Cache.found?_put_or_none hWhole now id o k with
          hNone | hSame
        · cases hFound : b.retired.found? k with
          | none => exact .inl hNone
          | some e =>
              right
              rcases hWhole.full_of_put hOther hFound hNone with
                ⟨hNew, hFull, hCrowded⟩
              refine
                { gone := hNone
                  before := by rw [isActive_eq, hOwn]; rfl
                  after := hGone
                  added := by simp [Cache.found?, hNew]
                  full := hFull
                  crowded := ?_ }
              intro hLives
              apply hCrowded
              unfold Cache.contains Cache.peek at hLives
              rw [Option.isSome_map, Cache.live?_eq_filter,
                hFound, Option.filter_some] at hLives
              by_contra hDead
              rw [if_neg hDead] at hLives
              contradiction
        · left
          rw [hSame, if_neg hOther]
  · intro _ hAfter
    rw [hGone] at hAfter
    contradiction
  · intro _
    exact hGone

/- All that an update does to a book. -/
theorem frame_update
    (hWhole : b.Whole)
    (hId : p.id = id)
    (last now : Nat)
    (retire : Bool) :
    let written := (b.find last id).1.write p
    b.Frame
      (if retire then (written.stop now id).1 else written)
      id now := by
  intro written
  have hWhole' := whole_find hWhole last id
  have hLooked : (b.find last id).1.isActive id = b.isActive id := by
    rw [isActive_eq, isActive_eq, active_find]
  have hStays : written.isActive id = b.isActive id := by
    rw [← hLooked, isActive_eq, isActive_eq, active_write, hId,
      if_pos rfl, Option.isSome_map]
  have hWritten : b.Frame written id now :=
    (frame_find hWhole last now id).trans
      (frame_write hWhole' hId now) hLooked
  cases retire with
  | false => exact hWritten
  | true =>
      exact
        hWritten.trans
          (frame_stop (whole_write hWhole' p) now id) hStays

------------------------------------------------------------
-- Names
------------------------------------------------------------

/- The same orders are active, and the same ones retired. -/
structure SameNames (b d : Book) (now : Nat) : Prop where
  active : ∀ k, d.isActive k = b.isActive k
  retired :
    ∀ k, d.retired.contains now k = b.retired.contains now k

/- Orders under the same names are listed under these. -/
theorem names_congr
    {m m' : Std.ExtTreeMap OrderId Order compare}
    (hSame : ∀ k, m'.contains k = m.contains k) :
    m'.toList.map Prod.fst = m.toList.map Prod.fst := by
  have hUnits :
      m'.map (fun _ _ => ()) = m.map fun _ _ => () := by
    apply Std.ExtTreeMap.ext_getElem?
    intro k
    have hKey := hSame k
    rw [Std.ExtTreeMap.contains_eq_isSome_getElem?,
      Std.ExtTreeMap.contains_eq_isSome_getElem?] at hKey
    rw [Std.ExtTreeMap.getElem?_map,
      Std.ExtTreeMap.getElem?_map]
    revert hKey
    cases m'[k]? <;> cases m[k]? <;> simp
  have hKeys := congrArg Std.ExtTreeMap.keys hUnits
  rw [Std.ExtTreeMap.keys_map, Std.ExtTreeMap.keys_map] at hKeys
  rw [Std.ExtTreeMap.map_fst_toList_eq_keys,
    Std.ExtTreeMap.map_fst_toList_eq_keys, hKeys]

namespace SameNames

theorem activeOrders_eq
    (h : b.SameNames d now) :
    d.activeOrders.map Prod.fst =
      b.activeOrders.map Prod.fst :=
  names_congr h.active

theorem retiredOrders_eq
    (hWhole : b.Whole)
    (hWhole' : d.Whole)
    (h : b.SameNames d now) :
    (d.retiredOrders now).map Prod.fst =
      (b.retiredOrders now).map Prod.fst := by
  apply names_congr
  intro k
  have hLive := h.retired k
  change
    (gather (d.retired.liveEntries now)).contains k =
      (gather (b.retired.liveEntries now)).contains k
  rw [Std.ExtTreeMap.contains_eq_isSome_getElem?,
    Std.ExtTreeMap.contains_eq_isSome_getElem?,
    getElem?_gather_live hWhole, getElem?_gather_live hWhole']
  exact hLive

end SameNames

/- An order that lives in the cache shows there. -/
theorem contains_eq_place
    (b : Book)
    (now : Nat)
    (k : OrderId) :
    b.retired.contains now k =
      (b.place now k).retired.isSome := by
  unfold place Cache.shown? Cache.contains Cache.peek
  rw [Option.isSome_map, Option.isSome_map]

theorem sameNames_find
    (hWhole : b.Whole)
    (now : Nat)
    (id : OrderId) :
    b.SameNames (b.find now id).1 now where
  active := by
    intro k
    rw [isActive_eq, isActive_eq, active_find]
  retired := by
    intro k
    rw [contains_eq_place, contains_eq_place,
      place_find hWhole]

/- Other records are written under the same names. -/
theorem sameNames_write
    (hWhole : b.Whole)
    (p : Order)
    (now : Nat)
    (id : OrderId) :
    b.SameNames ((b.find now id).1.write p) now where
  active := by
    intro k
    rw [isActive_eq, isActive_eq, active_write, active_find]
    split
    · rw [Option.isSome_map]
    · rfl
  retired := by
    intro k
    rw [contains_eq_place, contains_eq_place,
      place_write (whole_find hWhole now id), place_find hWhole]
    split
    · unfold Place.write
      split
      · rfl
      · rw [Option.isSome_map]
    · rfl

/- What is written is found in the place of what was found. -/
theorem find_written
    (hWhole : b.Whole)
    {o : Order}
    (hId : p.id = id)
    (hFound : (b.find now id).2 = some o) :
    (((b.find now id).1.write p).find now id).2 = some p := by
  subst hId
  rw [find_place] at hFound ⊢
  rw [place_write (whole_find hWhole now p.id), if_pos rfl,
    place_find hWhole]
  unfold Place.found at hFound ⊢
  unfold Place.write
  cases hActive : (b.place now p.id).active with
  | some q => rfl
  | none =>
      rw [hActive, Option.none_or,
        Option.map_eq_some_iff] at hFound
      rcases hFound with ⟨s, hRetired, _⟩
      rw [hRetired]
      rfl

end Book

end OrderWatch
