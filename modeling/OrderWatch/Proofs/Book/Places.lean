import OrderWatch.Proofs.Book
import OrderWatch.Proofs.Cache.Instant

/-
  What a book has under a single name.

  The place of a name holds the active order, and the retired
  one that still lives, with the time of its retirement.  To
  start, write or stop an order is to do so with the place of
  its name, and all other places stay as they are; look-ups
  and purges change none of them.  Only a retirement for
  which another order has to go is left out here.

  Main declarations:
    * `Place`, `Book.place`
    * `Book.find_place`, `Book.place_find`
    * `Book.place_start`, `Book.place_write`
    * `Book.place_stop_brief`, `Book.place_stop`
    * `Book.place_later`
    * `Book.stop_front`
-/

namespace OrderWatch

------------------------------------------------------------
-- Places
------------------------------------------------------------

/- What is under one name at some time. -/
structure Place where
  active : Option Order
  /- The living retired order, and when it was retired. -/
  retired : Option (Order × Nat)

namespace Place

variable (p : Place)

/- The order that is found: an active one goes first. -/
def found : Option Order :=
  p.active.or (p.retired.map Prod.fst)

def start (o : Order) : Place :=
  { p with active := some o }

/- Put another record in the place of what is found. -/
def write (o : Order) : Place :=
  match p.active with
  | some _ => { p with active := some o }
  | none => { p with retired := p.retired.map fun s => (o, s.2) }

/- Retire the order, if it is active. -/
def stop (now : Nat) : Place :=
  match p.active with
  | some o => ⟨none, some (o, now)⟩
  | none => p

/- What is left when time has gone on. -/
def later (ttl now : Nat) : Place :=
  { p with retired := p.retired.filter fun s => now - s.2 < ttl }

end Place

namespace Book

variable {b : Book} {id k : OrderId} {o : Order} {now : Nat}

def place (b : Book) (now : Nat) (id : OrderId) : Place :=
  ⟨b.active[id]?, b.retired.shown? now id⟩

theorem place_later
    {last : Nat}
    (hLater : last ≤ now)
    (k : OrderId) :
    b.place now k = (b.place last k).later b.retired.ttl now := by
  unfold place Place.later
  rw [Cache.shown?_later hLater]

------------------------------------------------------------
-- Looking up
------------------------------------------------------------

/- A look-up answers what is found in the place. -/
theorem find_place
    (b : Book)
    (now : Nat)
    (id : OrderId) :
    (b.find now id).2 = (b.place now id).found := by
  unfold place Place.found
  cases hActive : b.active[id]? with
  | some o =>
      rw [find_of_active hActive]
      rfl
  | none =>
      rw [find_of_retired hActive]
      exact Cache.get_shown b.retired now id

theorem place_findRetired
    (hWhole : b.Whole)
    (id k : OrderId) :
    (b.findRetired now id).1.place now k = b.place now k := by
  have hShown :
      (b.retired.get now id).1.shown? now k =
        b.retired.shown? now k :=
    Cache.shown?_get hWhole id k
  exact congrArg (Place.mk b.active[k]?) hShown

/- A look-up changes no place. -/
theorem place_find
    (hWhole : b.Whole)
    (id k : OrderId) :
    (b.find now id).1.place now k = b.place now k := by
  cases hActive : b.active[id]? with
  | some o => rw [find_of_active hActive]
  | none =>
      rw [find_of_retired hActive]
      exact place_findRetired hWhole id k

/- Nor does a purge. -/
theorem place_purge
    (hWhole : b.Whole)
    (k : OrderId) :
    (b.purge now).1.place now k = b.place now k := by
  have hShown :
      (b.retired.purge now).1.shown? now k =
        b.retired.shown? now k :=
    Cache.shown?_purge hWhole k
  exact congrArg (Place.mk b.active[k]?) hShown

theorem active_find
    (b : Book)
    (now : Nat)
    (id : OrderId) :
    (b.find now id).1.active = b.active := by
  unfold find
  split <;> rfl

------------------------------------------------------------
-- Starting and writing
------------------------------------------------------------

theorem place_start
    (b : Book)
    (o : Order)
    (k : OrderId) :
    (b.start o).place now k =
      if k = o.id then (b.place now k).start o
      else b.place now k := by
  unfold place start Place.start
  rw [getElem?_insert]
  split <;> rfl

/- An active order that is written stays active. -/
theorem active_write
    (b : Book)
    (o : Order)
    (k : OrderId) :
    (b.write o).active[k]? =
      if k = o.id then b.active[k]?.map fun _ => o
      else b.active[k]? := by
  cases hActive : b.active[o.id]? with
  | some p =>
      rw [write_of_active hActive, getElem?_insert]
      split
      · rename_i hSame
        rw [hSame, hActive]
        rfl
      · rfl
  | none =>
      rw [write_of_retired hActive]
      split
      · rename_i hSame
        rw [hSame, hActive]
        rfl
      · rfl

theorem place_write
    (hWhole : b.Whole)
    (o : Order)
    (k : OrderId) :
    (b.write o).place now k =
      if k = o.id then (b.place now k).write o
      else b.place now k := by
  unfold place Place.write
  rw [active_write]
  cases hActive : b.active[o.id]? with
  | some p =>
      rw [write_of_active hActive]
      split
      · rename_i hSame
        rw [hSame, hActive]
        rfl
      · rfl
  | none =>
      rw [write_of_retired hActive, Cache.shown?_modify hWhole]
      split
      · rename_i hSame
        rw [hSame, hActive]
        rfl
      · rfl

------------------------------------------------------------
-- Stopping
------------------------------------------------------------

/-
  An order is retired for which no other one has to go.  If
  retired orders do not live at all, nothing is left of it.
-/
theorem place_stop_brief
    (hWhole : b.Whole)
    (hRoom : (b.stop now id).2.getD 0 = 0)
    (k : OrderId) :
    (b.stop now id).1.place now k =
      if k = id then
        ((b.place now k).stop now).later b.retired.ttl now
      else
        b.place now k := by
  cases hActive : b.active[id]? with
  | none =>
      rw [stop_of_inactive hActive]
      split
      · rename_i hSame
        have hStays : (b.place now k).stop now = b.place now k := by
          unfold Place.stop place
          rw [hSame, hActive]
        rw [hStays, ← place_later (le_refl now)]
      · rfl
  | some o =>
      have hErased := b.active_stop now id k
      rw [stop_of_active hActive] at hErased hRoom ⊢
      unfold place Place.stop Place.later
      rw [hErased, Cache.shown?_put hWhole hRoom]
      split
      · rename_i hSame
        rw [hSame, hActive]
        simp only [Option.filter_some, Nat.sub_self,
          decide_eq_true_eq]
      · rfl

theorem place_stop
    (hWhole : b.Whole)
    (hTtl : 0 < b.retired.ttl)
    (hRoom : (b.stop now id).2.getD 0 = 0)
    (k : OrderId) :
    (b.stop now id).1.place now k =
      if k = id then (b.place now k).stop now
      else b.place now k := by
  rw [place_stop_brief hWhole hRoom]
  split
  · cases hActive : (b.place now k).active with
    | none =>
        have hStays : (b.place now k).stop now = b.place now k := by
          unfold Place.stop
          rw [hActive]
        rw [hStays, ← place_later (le_refl now)]
    | some o =>
        simp [Place.stop, Place.later, hActive, hTtl]
  · rfl

/-
  However full the cache is, an order that is stopped is found
  again at once, as the retired order last used.
-/
theorem stop_front
    (hWhole : b.Whole)
    (hCapacity : 0 < b.retired.capacity)
    (hTtl : 0 < b.retired.ttl)
    (hActive : b.active[id]? = some o)
    (now : Nat) :
    ((b.stop now id).1.find now id).2 = some o ∧
      ∃ rest,
        (b.stop now id).1.retired.liveEntries now =
          ⟨id, o, now, now⟩ :: rest := by
  have hWhole' := whole_stop hWhole now id
  have hGone := b.active_stop now id id
  rw [if_pos rfl] at hGone
  have hFront :
      ∃ rest,
        (b.stop now id).1.retired.liveEntries now =
          ⟨id, o, now, now⟩ :: rest := by
    rw [stop_of_active hActive]
    exact
      Cache.liveEntries_put_front hWhole hCapacity hTtl now id o
  refine ⟨?_, hFront⟩
  rcases hFront with ⟨rest, hFront⟩
  have hLive :=
    (hWhole'.mem_liveEntries_iff now ⟨id, o, now, now⟩).mp
      (by rw [hFront]; exact List.mem_cons_self)
  rw [find_of_retired hGone]
  change (Cache.get _ now id).2 = some o
  rw [Cache.get_answer, hLive]
  rfl

end Book

end OrderWatch
