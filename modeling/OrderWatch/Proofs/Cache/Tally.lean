import OrderWatch.Proofs.Cache.Living

/-
  How many entries of a cache live.

  The number that a cache tells of itself is that of its
  living entries.  Of those that live at some time, a later
  look-up takes away one, if it meets an entry that has
  expired meanwhile; no other step but a put and a purge
  changes their number.

  Main declarations:
    * `Cache.Timely.size_eq`
    * `Cache.purge_nothing`, `Cache.Timely.living_purge`
    * `Cache.Whole.entries_key`, `Cache.Whole.living_split`
    * `Cache.Whole.living_get`, `Cache.Whole.living_modify`
-/

namespace OrderWatch

namespace Cache

variable {K V : Type} [Ord K] [Std.TransOrd K]
variable {c : Cache K V} {last since now : Nat}

theorem Timely.size_eq
    (hTimely : c.Timely last)
    (now : Nat) :
    c.size now = (c.liveEntries now).length := by
  rcases hTimely with ⟨order, age, h, hDated⟩
  exact h.size_eq hDated now

/- A purge that finds nothing leaves the cache as it is. -/
theorem purge_nothing
    (hNothing : (c.purge now).2 = 0) :
    (c.purge now).1 = c := by
  have hNone : c.expiredSlots now = [] :=
    List.eq_nil_of_length_eq_zero hNothing
  unfold purge
  rw [hNone]
  rfl

/- After a purge those live that have lived before. -/
theorem Timely.living_purge
    [Std.LawfulEqOrd K]
    (hTimely : c.Timely now)
    (hLater : since ≤ now) :
    (c.purge now).1.liveEntries now =
      (c.purge now).1.liveEntries since := by
  have hLives := (c.follows_purge now).isLive_eq
  rcases hTimely with ⟨order, age, h, hDated⟩
  rw [liveEntries_later _ hLater, List.filter_eq_self]
  intro e hMem
  have hKept := (List.mem_filter.mp hMem).1
  change e ∈ (c.purge now).1.entries at hKept
  rw [h.entries_purge hDated] at hKept
  rw [hLives]
  exact (List.mem_filter.mp hKept).2

variable [DecidableEq K]

/- Of different things, one at most has a certain name. -/
theorem filter_name_of_nodup
    {α β : Type}
    [DecidableEq β]
    {name : α → β}
    {xs : List α}
    (hNodup : (xs.map name).Nodup)
    (b : β) :
    (xs.filter fun x => name x = b) =
      (xs.find? fun x => name x = b).toList := by
  induction xs with
  | nil => rfl
  | cons x xs ih =>
      rcases List.nodup_cons.mp hNodup with ⟨hOut, hNodup⟩
      by_cases hName : name x = b
      · have hOthers : (xs.filter fun x => name x = b) = [] := by
          rw [List.filter_eq_nil_iff]
          intro y hMem hSame
          have hTwice : name y = name x :=
            (of_decide_eq_true hSame).trans hName.symm
          exact hOut (hTwice ▸ List.mem_map_of_mem hMem)
        rw [List.filter_cons_of_pos (by simpa using hName),
          List.find?_cons_of_pos (by simpa using hName), hOthers]
        rfl
      · rw [List.filter_cons_of_neg (by simpa using hName),
          List.find?_cons_of_neg (by simpa using hName), ih hNodup]

/- The entries of a key are the one that is found. -/
theorem Whole.entries_key
    (hWhole : c.Whole)
    (k : K) :
    (c.entries.filter fun e => e.key = k) =
      (c.found? k).toList := by
  rcases hWhole with ⟨order, age, h⟩
  rw [filter_name_of_nodup h.nodup_keys, h.find?_entries]
  rfl

/- The living entries are that of a key, and the others. -/
theorem Whole.living_split
    (hWhole : c.Whole)
    (k : K)
    (time : Nat) :
    (c.liveEntries time).length =
      (c.live? time k).toList.length +
        ((c.entries.filter fun e => e.key ≠ k).filter
          (c.isLive time)).length := by
  have hOwn :
      (c.liveEntries time).filter (fun e => e.key = k) =
        (c.live? time k).toList := by
    change (c.entries.filter (c.isLive time)).filter _ = _
    rw [List.filter_comm, hWhole.entries_key, live?_eq_filter]
    cases c.found? k with
    | none => rfl
    | some e =>
        cases hLive : c.isLive time e <;>
          simp [Option.filter_some, hLive]
  have hSplit :=
    List.length_eq_length_filter_add
      (l := c.liveEntries time) (fun e => e.key = k)
  rw [hSplit, hOwn]
  congr 2
  change (c.entries.filter (c.isLive time)).filter _ = _
  rw [List.filter_comm]
  simp

/- To change a value makes no entry live longer. -/
theorem Whole.living_modify
    (hWhole : c.Whole)
    (k : K)
    (f : V → V)
    (time : Nat) :
    ((c.modify k f).liveEntries time).length =
      (c.liveEntries time).length := by
  rw [liveEntries_modify hWhole, List.length_map]

variable [Std.LawfulEqOrd K]

/-
  A look-up takes away an entry that it finds expired, which
  may have lived before.
-/
theorem Whole.living_get
    (hWhole : c.Whole)
    (now time : Nat)
    (k : K) :
    ((c.get now k).1.liveEntries time).length +
        (if c.index[k]?.any (c.isExpired now) then
          (c.live? time k).toList.length
        else
          0) =
      (c.liveEntries time).length := by
  have hLives := (c.follows_get now k).isLive_eq time
  have hSplit := hWhole.living_split k time
  have hHolds := hWhole
  rcases hHolds with ⟨order, age, h⟩
  change ((c.get now k).1.entries.filter _).length + _ = _
  rw [hLives]
  cases hIndex : c.index[k]? with
  | none =>
      simp only [get, hIndex, Option.any_none]
      rfl
  | some i =>
      rcases h.entry?_of_index hIndex with ⟨e, hEntry, rfl⟩
      rw [Option.any_some]
      cases hExpired : c.isExpired now i with
      | true =>
          rw [get_expired c hIndex hExpired, h.entries_drop hEntry,
            if_pos rfl, hSplit, Nat.add_comm]
      | false =>
          have hFound : c.live? time e.key =
              (some e).filter (c.isLive time) := by
            rw [live?_eq_filter]
            simp [found?, hIndex, hEntry]
          have hUsed :
              c.isLive time { e with lastAccess := now } =
                c.isLive time e :=
            rfl
          rw [h.entries_get_live hIndex hEntry hExpired, hSplit,
            hFound, Option.filter_some, List.filter_cons, hUsed]
          cases c.isLive time e <;> simp [Nat.add_comm]

end Cache

end OrderWatch
