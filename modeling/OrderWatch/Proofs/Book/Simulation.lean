import OrderWatch.Proofs.Book

/-
  Books that are used alike.

  Two books have the same active orders, and two caches for
  the retired ones that are related in some way.  If look-ups
  in related caches are answered alike, and if their use
  keeps them related, then this is true of the books.  What
  the relation is does not matter here: one cache may have
  lost something, or may have been purged.

  A put may have to push entries out of a cache.  A relation
  may only be kept by the puts that push out so many of them
  as there is a licence for.

  Main declarations:
    * `Book.gather`, `Book.getElem?_gather_live`
    * `Book.mem_retiredOrders_iff`, `Book.retiredOrders_congr`
    * `Cache.Simulation`
    * `Book.Related`, `Book.Related.retiredOrders_eq`
    * `Book.Related.find`, `Book.Related.write`
    * `Book.Related.stop`
-/

namespace OrderWatch

namespace Book

------------------------------------------------------------
-- Living orders
------------------------------------------------------------

/- The values of some entries under their keys. -/
def gather
    (entries : List (Cache.Entry OrderId Order)) :
    Std.ExtTreeMap OrderId Order compare :=
  entries.foldl (fun found e => found.insert e.key e.value) ∅

theorem gather_append
    (entries : List (Cache.Entry OrderId Order))
    (e : Cache.Entry OrderId Order)
    (id : OrderId) :
    (gather (entries ++ [e]))[id]? =
      if id = e.key then some e.value
      else (gather entries)[id]? := by
  unfold gather
  rw [List.foldl_append, List.foldl_cons, List.foldl_nil,
    Std.ExtTreeMap.getElem?_insert]
  by_cases hSame : id = e.key
  · simp [hSame]
  · simp [hSame, Ne.symm hSame]

/- Where every key has one value, it is gathered. -/
theorem getElem?_gather
    {entries : List (Cache.Entry OrderId Order)}
    (value : OrderId → Option Order)
    (hValue : ∀ e ∈ entries, value e.key = some e.value)
    (id : OrderId) :
    (gather entries)[id]? =
      if id ∈ entries.map Cache.Entry.key then value id
      else none := by
  induction entries using List.reverseRecOn with
  | nil => simp [gather]
  | append_singleton entries e ih =>
      have hOwn := hValue e (by simp)
      have hRest :=
        ih (fun f hMem => hValue f (by simp [hMem]))
      rw [gather_append, hRest]
      by_cases hSame : id = e.key
      · simp [hSame, hOwn]
      · simp [hSame]

/- The gathered living entries are those found alive. -/
theorem getElem?_gather_live
    {c : Cache OrderId Order}
    (hWhole : c.Whole)
    (now : Nat)
    (id : OrderId) :
    (gather (c.liveEntries now))[id]? =
      (c.live? now id).map Cache.Entry.value := by
  have hMem := hWhole.mem_liveEntries_iff now
  have hValue :
      ∀ e ∈ c.liveEntries now,
        (c.live? now e.key).map Cache.Entry.value =
          some e.value := by
    intro e hLive
    rw [(hMem e).mp hLive]
    rfl
  rw [getElem?_gather
    (fun k => (c.live? now k).map Cache.Entry.value) hValue]
  split
  · rfl
  · rename_i hOut
    cases hLive : c.live? now id with
    | none => rfl
    | some e =>
        have hFound := hLive
        rw [Cache.live?_eq_filter,
          Option.filter_eq_some_iff] at hFound
        have hKey := hWhole.found?_key hFound.1
        rw [← hKey] at hLive
        have hIn :=
          List.mem_map_of_mem (f := Cache.Entry.key)
            ((hMem e).mpr hLive)
        rw [hKey] at hIn
        exact absurd hIn hOut

/- An order is listed as retired if it is found alive. -/
theorem mem_retiredOrders_iff
    {b : Book}
    (hWhole : b.Whole)
    (now : Nat)
    (id : OrderId)
    (o : Order) :
    (id, o) ∈ b.retiredOrders now ↔
      (b.retired.live? now id).map Cache.Entry.value = some o := by
  rw [← getElem?_gather_live hWhole]
  exact Std.ExtTreeMap.mem_toList_iff_getElem?_eq_some

/- Two books in which the same retired orders live. -/
theorem retiredOrders_congr
    {b d : Book}
    (hWhole : b.Whole)
    (hWhole' : d.Whole)
    {now : Nat}
    (hSame :
      ∀ id,
        (d.retired.live? now id).map Cache.Entry.value =
          (b.retired.live? now id).map Cache.Entry.value) :
    d.retiredOrders now = b.retiredOrders now := by
  have hGathered :
      gather (d.retired.liveEntries now) =
        gather (b.retired.liveEntries now) := by
    apply Std.ExtTreeMap.ext_getElem?
    intro id
    rw [getElem?_gather_live hWhole,
      getElem?_gather_live hWhole']
    exact hSame id
  exact congrArg Std.ExtTreeMap.toList hGathered

end Book

------------------------------------------------------------
-- Related caches
------------------------------------------------------------

/-
  A relation between caches that is kept by all their uses,
  by a put if the number of entries that it drops from the
  first cache is allowed.
-/
structure Cache.Simulation
    (Allowed : Nat → Prop)
    (Q :
      Cache OrderId Order → Cache OrderId Order → Nat → Prop) :
    Prop where
  whole :
    ∀ {c d now}, Q c d now → c.Whole ∧ d.Whole
  /- What lives under a key is the same. -/
  live :
    ∀ {c d now}, Q c d now → ∀ k,
      (d.live? now k).map Cache.Entry.value =
        (c.live? now k).map Cache.Entry.value
  later :
    ∀ {c d last now}, Q c d last → last ≤ now → Q c d now
  get :
    ∀ {c d now}, Q c d now → ∀ k,
      Q (c.get now k).1 (d.get now k).1 now
  modify :
    ∀ {c d now}, Q c d now → ∀ k f,
      Q (c.modify k f) (d.modify k f) now
  put :
    ∀ {c d now}, Q c d now → ∀ {k o},
      Allowed (c.put now k o).2 →
        Q (c.put now k o).1 (d.put now k o).1 now

namespace Book

/- Two books whose caches are related. -/
structure Related
    (Q :
      Cache OrderId Order → Cache OrderId Order → Nat → Prop)
    (b d : Book)
    (now : Nat) : Prop where
  active_eq : d.active = b.active
  retired : Q b.retired d.retired now

namespace Related

variable {Allowed : Nat → Prop}
variable
  {Q : Cache OrderId Order → Cache OrderId Order → Nat → Prop}
variable {b d : Book} {now : Nat}

theorem later
    (hSim : Cache.Simulation Allowed Q)
    {last : Nat}
    (h : Related Q b d last)
    (hLater : last ≤ now) :
    Related Q b d now where
  active_eq := h.active_eq
  retired := hSim.later h.retired hLater

/- Both books have the same living orders. -/
theorem retiredOrders_eq
    (hSim : Cache.Simulation Allowed Q)
    (h : Related Q b d now) :
    d.retiredOrders now = b.retiredOrders now := by
  rcases hSim.whole h.retired with ⟨hWhole, hWhole'⟩
  exact retiredOrders_congr hWhole hWhole' (hSim.live h.retired)

theorem start
    (h : Related Q b d now)
    (o : Order) :
    Related Q (b.start o) (d.start o) now where
  active_eq := by
    unfold Book.start
    rw [h.active_eq]
  retired := h.retired

------------------------------------------------------------
-- Looking up
------------------------------------------------------------

theorem findRetired
    (hSim : Cache.Simulation Allowed Q)
    (h : Related Q b d now)
    (id : OrderId) :
    Related Q (b.findRetired now id).1
        (d.findRetired now id).1 now ∧
      (d.findRetired now id).2 = (b.findRetired now id).2 := by
  refine ⟨⟨h.active_eq, hSim.get h.retired id⟩, ?_⟩
  change (d.retired.get now id).2 = (b.retired.get now id).2
  rw [Cache.get_answer, Cache.get_answer]
  exact hSim.live h.retired id

/- A look-up is answered alike. -/
theorem find
    (hSim : Cache.Simulation Allowed Q)
    (h : Related Q b d now)
    (id : OrderId) :
    Related Q (b.find now id).1 (d.find now id).1 now ∧
      (d.find now id).2 = (b.find now id).2 := by
  have hActive' : d.active[id]? = b.active[id]? := by
    rw [h.active_eq]
  cases hActive : b.active[id]? with
  | some o =>
      rw [hActive] at hActive'
      rw [find_of_active hActive, find_of_active hActive']
      exact ⟨h, rfl⟩
  | none =>
      rw [hActive] at hActive'
      rw [find_of_retired hActive, find_of_retired hActive']
      exact h.findRetired hSim id

------------------------------------------------------------
-- Writing and stopping
------------------------------------------------------------

theorem write
    (hSim : Cache.Simulation Allowed Q)
    (h : Related Q b d now)
    (o : Order) :
    Related Q (b.write o) (d.write o) now := by
  have hActive' : d.active[o.id]? = b.active[o.id]? := by
    rw [h.active_eq]
  cases hActive : b.active[o.id]? with
  | some p =>
      rw [hActive] at hActive'
      rw [write_of_active hActive, write_of_active hActive']
      exact h.start o
  | none =>
      rw [hActive] at hActive'
      rw [write_of_retired hActive, write_of_retired hActive']
      exact
        ⟨h.active_eq, hSim.modify h.retired o.id fun _ => o⟩

/- An order is stopped in both books. -/
theorem stop
    (hSim : Cache.Simulation Allowed Q)
    (h : Related Q b d now)
    {id : OrderId}
    (hAllowed : Allowed ((b.stop now id).2.getD 0)) :
    Related Q (b.stop now id).1 (d.stop now id).1 now ∧
      (d.stop now id).2.isSome = (b.stop now id).2.isSome := by
  have hActive' : d.active[id]? = b.active[id]? := by
    rw [h.active_eq]
  cases hActive : b.active[id]? with
  | some o =>
      rw [hActive] at hActive'
      rw [stop_of_active hActive] at hAllowed
      rw [stop_of_active hActive, stop_of_active hActive']
      refine ⟨?_, rfl⟩
      exact
        { active_eq := by rw [h.active_eq]
          retired := hSim.put h.retired hAllowed }
  | none =>
      rw [hActive] at hActive'
      rw [stop_of_inactive hActive, stop_of_inactive hActive']
      exact ⟨h, rfl⟩

end Related

end Book

end OrderWatch
