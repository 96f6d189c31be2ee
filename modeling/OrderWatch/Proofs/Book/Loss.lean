import OrderWatch.Proofs.Book.Simulation
import OrderWatch.Proofs.Cache.Loss

/-
  A book that has lost some of its expired orders.

  Its active orders are those of the other book, and so are
  the retired orders that still live.  Whatever is done to
  both books is answered alike, except that a purge may count
  fewer orders.

  Main declarations:
    * `Cache.simulation_forgets`
    * `Book.Forgets`
    * `Book.Forgets.find`, `Book.Forgets.findAgain`
    * `Book.Forgets.write`, `Book.Forgets.writeAgain`
-/

namespace OrderWatch

/-
  A loss of expired entries does not show as long as no put
  has to push out others.
-/
theorem Cache.simulation_forgets :
    Cache.Simulation (· = 0) Cache.Forgets where
  whole := fun h => ⟨h.timely.whole, h.timely'.whole⟩
  live := by
    intro c d now h k
    have hStamps := h.live?_eq k
    have hValues := congrArg (Option.map Prod.fst) hStamps
    rw [Option.map_map, Option.map_map] at hValues
    exact hValues
  later := fun h hLater => h.later hLater
  get := fun h k => h.get k
  modify := fun h k f => h.modify k f
  put := fun h _ _ hNone => h.put hNone

namespace Book

/- A book `d` is a book `b` but for expired orders. -/
structure Forgets (b d : Book) (now : Nat) : Prop where
  active_eq : d.active = b.active
  retired : b.retired.Forgets d.retired now

namespace Forgets

variable {b d : Book} {id : OrderId} {o : Order} {now : Nat}

theorem related
    (h : b.Forgets d now) :
    Related Cache.Forgets b d now :=
  ⟨h.active_eq, h.retired⟩

theorem of_related
    (h : Related Cache.Forgets b d now) :
    b.Forgets d now :=
  ⟨h.active_eq, h.retired⟩

theorem empty
    (capacity ttl now : Nat) :
    (Book.empty capacity ttl).Forgets
      (Book.empty capacity ttl) now where
  active_eq := rfl
  retired :=
    Cache.Forgets.refl (Cache.timely_empty capacity ttl now)
      (Nat.zero_le capacity)

theorem purge
    (h : b.Forgets d now) :
    (b.purge now).1.Forgets (d.purge now).1 now where
  active_eq := h.active_eq
  retired := h.retired.purge

/- A look-up is answered alike. -/
theorem find
    (h : b.Forgets d now)
    (id : OrderId) :
    (b.find now id).1.Forgets (d.find now id).1 now ∧
      (d.find now id).2 = (b.find now id).2 := by
  rcases h.related.find Cache.simulation_forgets id with
    ⟨hLooked, hSame⟩
  exact ⟨of_related hLooked, hSame⟩

/- A further look-up in the book that has lost orders. -/
theorem findAgain
    (h : b.Forgets d now)
    (id : OrderId) :
    b.Forgets (d.find now id).1 now := by
  cases hActive : d.active[id]? with
  | some o =>
      rw [find_of_active hActive]
      exact h
  | none =>
      rw [find_of_retired hActive]
      exact ⟨h.active_eq, h.retired.getAgain id⟩

theorem write
    (h : b.Forgets d now)
    (o : Order) :
    (b.write o).Forgets (d.write o) now :=
  of_related (h.related.write Cache.simulation_forgets o)

/-
  What has been found in the book that has lost orders is
  written there again.
-/
theorem writeAgain
    (h : b.Forgets d now)
    (hId : o.id = id)
    (hFound : (d.find now id).2 = some o) :
    b.Forgets ((d.find now id).1.write o) now := by
  subst hId
  have hWhole := h.retired.timely'.whole
  cases hActive : d.active[o.id]? with
  | some p =>
      rw [find_of_active hActive] at hFound ⊢
      have hSame : p = o := Option.some.inj hFound
      rw [write_of_active hActive]
      refine { active_eq := ?_, retired := h.retired }
      rw [← h.active_eq]
      apply Std.ExtTreeMap.ext_getElem?
      intro k
      rw [getElem?_insert]
      split
      · rename_i hKey
        rw [hKey, hActive, hSame]
      · rfl
  | none =>
      have hStill :
          (d.findRetired now o.id).1.active[o.id]? = none :=
        hActive
      rw [find_of_retired hActive] at hFound ⊢
      rw [write_of_retired hStill]
      refine { active_eq := h.active_eq, retired := ?_ }
      apply (h.retired.getAgain o.id).modifyAgain
      intro e hEntry
      have hKept := (Cache.kept?_of_get hWhole hFound).2
      unfold Cache.kept? at hKept
      rw [hEntry] at hKept
      exact Option.some.inj hKept

end Forgets

end Book

end OrderWatch
