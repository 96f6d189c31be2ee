import Mathlib.Data.Finset.Card
import OrderWatch.Proofs.Cache.History
import OrderWatch.Proofs.Cache.Refinement

/-
  How long a cache retains what has been used.

  Above the entry of a key there lie only entries of keys
  that have been used since it has been used itself.  So as
  long as these are fewer than there is room for, no lack of
  room reaches the entry, and only its age or a removal can
  take it away.

  Main declarations:
    * `Pile.Under`, `Pile.Under.serve`
    * `Pile.Retains`, `Pile.Retains.run`
    * `Pile.Recalls.get_of_used`
    * `Cache.retained_while_few_used`
-/

namespace OrderWatch

namespace Pile

open Cache (Entry Request lastPut? usedBy)

variable {K V : Type} [DecidableEq K]
variable {p : Pile K V} {k : K} {now : Nat}
variable {history : List (Nat × Request K V)}
variable {request : Request K V}

------------------------------------------------------------
-- What lies above an entry
------------------------------------------------------------

/-
  Among some entries there is one of a key, with its value
  and its age, and all that lie above have certain keys.
-/
def Under
    (entries : List (Entry K V))
    (k : K)
    (stamp : V × Nat)
    (keys : List K) : Prop :=
  ∃ above e below,
    entries = above ++ e :: below ∧
    (e.key = k ∧ e.stamp = stamp) ∧
    ∀ a ∈ above, a.key ≠ k ∧ a.key ∈ keys

namespace Under

variable {entries : List (Entry K V)}
variable {stamp : V × Nat} {keys keys' : List K}

omit [DecidableEq K] in
theorem top
    (e : Entry K V)
    (below : List (Entry K V))
    (keys : List K) :
    Under (e :: below) e.key e.stamp keys :=
  ⟨[], e, below, rfl, ⟨rfl, rfl⟩, by simp⟩

omit [DecidableEq K] in
theorem mono
    (h : Under entries k stamp keys)
    (hSubset : keys ⊆ keys') :
    Under entries k stamp keys' := by
  rcases h with ⟨above, e, below, hSplit, hOwn, hAbove⟩
  exact
    ⟨above, e, below, hSplit, hOwn, fun a hMem =>
      ⟨(hAbove a hMem).1, hSubset (hAbove a hMem).2⟩⟩

omit [DecidableEq K] in
theorem cons
    (h : Under entries k stamp keys)
    {a : Entry K V}
    (hApart : a.key ≠ k)
    (hMem : a.key ∈ keys) :
    Under (a :: entries) k stamp keys := by
  rcases h with ⟨above, e, below, rfl, hOwn, hAbove⟩
  refine ⟨a :: above, e, below, rfl, hOwn, ?_⟩
  intro b hTop
  rcases List.mem_cons.mp hTop with rfl | hRest
  · exact ⟨hApart, hMem⟩
  · exact hAbove b hRest

omit [DecidableEq K] in
/- Entries may go that are not the one of the key. -/
theorem filter
    (h : Under entries k stamp keys)
    {test : Entry K V → Bool}
    (hStays :
      ∀ e : Entry K V, e.key = k → e.stamp = stamp →
        test e = true) :
    Under (entries.filter test) k stamp keys := by
  rcases h with ⟨above, e, below, rfl, hOwn, hAbove⟩
  refine
    ⟨above.filter test, e, below.filter test, ?_, hOwn, ?_⟩
  · rw [List.filter_append,
      List.filter_cons_of_pos (hStays e hOwn.1 hOwn.2)]
  · intro a hMem
    exact hAbove a (List.mem_of_mem_filter hMem)

/- What lies below may go, if the keys above are few. -/
theorem take
    (h : Under entries k stamp keys)
    (hDistinct : (entries.map Entry.key).Nodup)
    {n : Nat}
    (hFew : (keys.toFinset.erase k).card < n) :
    Under (entries.take n) k stamp keys := by
  rcases h with ⟨above, e, below, rfl, hOwn, hAbove⟩
  have hKeys : (above.map Entry.key).Nodup := by
    rw [List.map_append] at hDistinct
    exact (List.nodup_append.mp hDistinct).1
  have hSubset :
      (above.map Entry.key).toFinset ⊆ keys.toFinset.erase k := by
    intro key hMem
    rcases List.mem_map.mp (List.mem_toFinset.mp hMem) with
      ⟨a, hTop, rfl⟩
    rw [Finset.mem_erase, List.mem_toFinset]
    exact hAbove a hTop
  have hShort : above.length < n := by
    calc above.length
        = (above.map Entry.key).toFinset.card := by
          rw [List.toFinset_card_of_nodup hKeys, List.length_map]
      _ ≤ (keys.toFinset.erase k).card :=
          Finset.card_le_card hSubset
      _ < n := hFew
  refine ⟨above, e, below.take (n - above.length - 1), ?_, hOwn,
    hAbove⟩
  rw [List.take_append, List.take_of_length_le hShort.le]
  congr 1
  exact List.take_cons (by omega)

theorem find?_eq
    (h : Under p.entries k stamp keys) :
    ∃ e, p.find? k = some e ∧ e.key = k ∧ e.stamp = stamp := by
  rcases h with ⟨above, e, below, hSplit, hOwn, hAbove⟩
  refine ⟨e, ?_, hOwn⟩
  unfold Pile.find?
  rw [hSplit, List.find?_eq_some_iff_append]
  refine ⟨by simpa using hOwn.1, above, below, rfl, ?_⟩
  intro a hMem
  simpa using (hAbove a hMem).1

/- Room is made below, as long as the entry lives. -/
theorem shrink
    (h : Under p.entries k stamp keys)
    (hDistinct : (p.entries.map Entry.key).Nodup)
    (hLive : now - stamp.2 < p.ttl)
    (hFew : (keys.toFinset.erase k).card < p.capacity) :
    Under (p.shrink now).entries k stamp keys := by
  unfold Pile.shrink
  split
  · refine (h.filter ?_).take ?_ hFew
    · rintro e - rfl
      exact decide_eq_true hLive
    · exact hDistinct.sublist (List.filter_sublist.map Entry.key)
  · exact h

/- A look-up answers the value of an entry that lives. -/
theorem get_eq
    (h : Under p.entries k stamp keys)
    (hLive : now - stamp.2 < p.ttl) :
    (p.get now k).2 = some stamp.1 := by
  rcases h.find?_eq with ⟨e, hFound, hKey, rfl⟩
  have hLive : p.isLive now e = true := decide_eq_true hLive
  simp only [Pile.get, hFound, hLive, if_true]
  rfl

end Under

/- A key that is put lies on top as long as its entry lives. -/
theorem under_put
    (h : p.Recalls history)
    (hTtl : 0 < p.ttl)
    (hRoom : 0 < p.capacity)
    (k : K)
    (v : V) :
    Under (p.put now k v).1.entries k (v, now) [] := by
  have hTop :=
    Under.top ⟨k, v, now, now⟩ (p.without k) ([] : List K)
  simp only [put]
  split
  · exact hTop
  · refine
      Under.shrink (p := { p with entries := _ }) hTop
        (h.distinct_top ⟨k, v, now, now⟩) ?_ ?_
    · simpa using hTtl
    · simpa using hRoom

/-
  A request that neither puts nor drops a key leaves its
  entry, and brings at most the key that it uses above it.
-/
theorem Under.serve
    {stamp : V × Nat}
    {keys : List K}
    (h : Under p.entries k stamp keys)
    (hRecalls : p.Recalls history)
    (hLive : now - stamp.2 < p.ttl)
    (hPuts : request.puts? k = none)
    (hKept : request ≠ .remove k ∧ request ≠ .clear)
    (hFew :
      ((keys ++
        (request.used?
          (p.serve now request).2).toList).toFinset.erase
            k).card < p.capacity) :
    Under (p.serve now request).1.entries k stamp
      (keys ++
        (request.used? (p.serve now request).2).toList) := by
  have hMore :
      Under p.entries k stamp
        (keys ++
          (request.used? (p.serve now request).2).toList) :=
    h.mono (List.subset_append_left _ _)
  have hAlive :
      ∀ e : Entry K V, e.key = k → e.stamp = stamp →
        p.isLive now e = true := by
    rintro e - rfl
    exact decide_eq_true hLive
  -- The entries of another key may go.
  have hWithout :
      ∀ {keys k'}, k' ≠ k → Under p.entries k stamp keys →
        Under (p.without k') k stamp keys := by
    intro keys k' hApart hUnder
    refine hUnder.filter ?_
    rintro e rfl -
    simpa using Ne.symm hApart
  cases request with
  | put k' v =>
      have hApart : k' ≠ k := by
        rintro rfl
        simp at hPuts
      have hHeaped :=
        (hWithout hApart hMore).cons (a := ⟨k', v, now, now⟩)
          hApart (by simp [Request.used?])
      simp only [Pile.serve, put]
      split
      · exact hHeaped
      · exact
          Under.shrink (p := { p with entries := _ }) hHeaped
            (hRecalls.distinct_top ⟨k', v, now, now⟩) hLive hFew
  | get k' =>
      by_cases hSame : k' = k
      · subst hSame
        rcases h.find?_eq with ⟨e, hFound, rfl, rfl⟩
        simp only [Pile.serve, get, hFound, hAlive e rfl rfl,
          if_true]
        exact Under.top { e with lastAccess := now } _ _
      · cases hFound : p.find? k' with
        | none =>
            simp only [Pile.serve, get, hFound] at hMore ⊢
            exact hMore
        | some e =>
            have hKey := (mem_of_find? hFound).2
            cases hLives : p.isLive now e with
            | false =>
                simp only [Pile.serve, get, hFound, hLives]
                  at hMore ⊢
                exact hWithout hSame hMore
            | true =>
                simp only [Pile.serve, get, hFound, hLives,
                  if_true] at hMore ⊢
                refine (hWithout hSame hMore).cons ?_ ?_
                · exact hKey ▸ hSame
                · simp [Request.used?, hKey]
  | remove k' =>
      have hApart : k' ≠ k := by
        rintro rfl
        exact hKept.1 rfl
      exact hWithout hApart hMore
  | purge => exact hMore.filter hAlive
  | clear => exact absurd rfl hKept.2
  | _ => exact hMore

------------------------------------------------------------
-- Runs
------------------------------------------------------------

/-
  What was last put under a key is there as long as it lives,
  and what lies above it has certain keys.
-/
def Retains
    (p : Pile K V)
    (k : K)
    (history : List (Nat × Request K V))
    (now : Nat)
    (keys : List K) : Prop :=
  ∀ stamp, lastPut? k history = some stamp →
    now - stamp.2 < p.ttl → Under p.entries k stamp keys

/- A key that is used has been put, and comes on top. -/
theorem retains_of_used
    (h : p.Recalls history)
    (hUsed : request.used? (p.serve now request).2 = some k)
    (hRoom : 0 < p.capacity) :
    (∃ stamp,
        lastPut? k (history ++ [(now, request)]) =
          some stamp) ∧
      (p.serve now request).1.Retains k
        (history ++ [(now, request)]) now [] := by
  cases request with
  | put k' v =>
      have hSame : k' = k := Option.some.inj hUsed
      subst hSame
      have hPut :
          lastPut? k' (history ++ [(now, .put k' v)]) =
            some (v, now) :=
        Cache.lastPut?_of_puts (by simp)
      refine ⟨⟨_, hPut⟩, ?_⟩
      intro stamp hLast hLive
      rw [hPut] at hLast
      rw [← Option.some.inj hLast, (bounds_serve _ _ _).2] at hLive
      rw [← Option.some.inj hLast]
      exact under_put h (by omega) hRoom k' v
  | get k' =>
      cases hFound : p.find? k' with
      | none =>
          simp [Pile.serve, get, hFound, Request.used?] at hUsed
      | some e =>
          rcases mem_of_find? hFound with ⟨hMem, hKey⟩
          cases hLives : p.isLive now e with
          | false =>
              simp [Pile.serve, get, hFound, hLives,
                Request.used?] at hUsed
          | true =>
              simp only [Pile.serve, get, hFound, hLives, if_true,
                Request.used?, Option.some.injEq] at hUsed
              subst hUsed hKey
              have hPut := h.latest e hMem
              have hStill :
                  lastPut? e.key
                      (history ++ [(now, .get e.key)]) =
                    lastPut? e.key history :=
                Cache.lastPut?_of_other rfl
              rw [← hStill] at hPut
              refine ⟨⟨_, hPut⟩, ?_⟩
              intro stamp hLast _
              rw [hPut] at hLast
              simp only [Pile.serve, get, hFound, hLives, if_true]
              rw [← Option.some.inj hLast]
              exact Under.top { e with lastAccess := now } _ _
  | _ => simp [Request.used?] at hUsed

/- Of fewer uses there are fewer keys. -/
theorem few_of_append
    {keys more : List K}
    {n : Nat}
    (hFew : ((keys ++ more).toFinset.erase k).card < n) :
    (keys.toFinset.erase k).card < n := by
  rw [List.toFinset_append] at hFew
  exact
    (Finset.card_le_card
      (Finset.erase_subset_erase k
        Finset.subset_union_left)).trans_lt hFew

namespace Retains

variable {last : Nat} {keys : List K}

theorem serve
    (h : p.Retains k history last keys)
    (hRecalls : p.Recalls history)
    (hLater : last ≤ now)
    (hKept : request ≠ .remove k ∧ request ≠ .clear)
    (hFew :
      ((keys ++
        (request.used?
          (p.serve now request).2).toList).toFinset.erase
            k).card < p.capacity) :
    (p.serve now request).1.Retains k
      (history ++ [(now, request)]) now
      (keys ++
        (request.used? (p.serve now request).2).toList) := by
  intro stamp hLast hLive
  cases hPuts : request.puts? k with
  | some v =>
      -- The key is put once more, whatever has been there.
      have hUsed :
          request.used? (p.serve now request).2 = some k := by
        rw [Request.eq_put_of_puts hPuts]
        rfl
      have hTop :=
        (retains_of_used hRecalls hUsed (by omega)).2
      exact (hTop stamp hLast hLive).mono (List.nil_subset _)
  | none =>
      rw [Cache.lastPut?_of_other hPuts] at hLast
      rw [(bounds_serve p now request).2] at hLive
      exact
        (h stamp hLast (by omega)).serve hRecalls hLive hPuts
          hKept hFew

/-
  A run retains a key as long as it uses few others.  What
  has been used until now goes along with the run.
-/
theorem run
    (h : p.Retains k history last keys)
    (hRecalls : p.Recalls history)
    {steps : List (Nat × Request K V)}
    (hSteady :
      (last :: (steps.map Prod.fst ++ [now])).Pairwise (· ≤ ·))
    (hKept : ∀ s ∈ steps, s.2 ≠ .remove k ∧ s.2 ≠ .clear)
    (hFew :
      ((keys ++ usedBy steps (p.run steps).2).toFinset.erase
        k).card < p.capacity) :
    (p.run steps).1.Retains k (history ++ steps) now
      (keys ++ usedBy steps (p.run steps).2) := by
  induction steps generalizing p history last keys with
  | nil =>
      have hLater : last ≤ now := by simpa using hSteady
      intro stamp hLast hLive
      rw [List.append_nil] at hLast
      exact
        (h stamp hLast (by
          have hLive : now - stamp.2 < p.ttl := hLive
          omega)).mono (List.subset_append_left _ _)
  | cons step steps ih =>
      rcases step with ⟨time, request⟩
      rcases List.pairwise_cons.mp hSteady with
        ⟨hFirst, hRest⟩
      have hLater : last ≤ time := hFirst time (by simp)
      have hSplit :
          usedBy ((time, request) :: steps)
              (p.run ((time, request) :: steps)).2 =
            (request.used? (p.serve time request).2).toList ++
              usedBy steps
                ((p.serve time request).1.run steps).2 := by
        simp only [usedBy, Pile.run, List.zip_cons_cons,
          List.filterMap_cons]
        cases request.used? (p.serve time request).2 <;> rfl
      rw [hSplit, ← List.append_assoc] at hFew ⊢
      have hStays : request ≠ .remove k ∧ request ≠ .clear :=
        hKept (time, request) List.mem_cons_self
      have hServed :=
        h.serve hRecalls hLater hStays (few_of_append hFew)
      have hRetains :=
        ih hServed (hRecalls.serve time request) hRest
          (fun s hMem => hKept s (List.mem_cons_of_mem _ hMem))
          (by rw [(bounds_serve p time request).1]; exact hFew)
      rw [List.append_assoc history] at hRetains
      exact hRetains

end Retains

/-
  A key that has been used is found again, if few others are
  used meanwhile and what was last put under it still lives.
-/
theorem Recalls.get_of_used
    {time : Nat}
    {use : Request K V}
    {steps : List (Nat × Request K V)}
    (h : p.Recalls history)
    (hUsed : use.used? (p.serve time use).2 = some k)
    (hSteady :
      (time :: (steps.map Prod.fst ++ [now])).Pairwise (· ≤ ·))
    (hKept : ∀ s ∈ steps, s.2 ≠ .remove k ∧ s.2 ≠ .clear)
    (hFew :
      ((usedBy steps
        ((p.serve time use).1.run steps).2).toFinset.erase
          k).card < p.capacity) :
    ∃ v since,
      lastPut? k (history ++ (time, use) :: steps) =
        some (v, since) ∧
      (now - since < p.ttl →
        (((p.serve time use).1.run steps).1.get now k).2 =
          some v) := by
  rcases retains_of_used h hUsed (by omega) with
    ⟨⟨first, hFirst⟩, hTop⟩
  rcases bounds_serve p time use with ⟨hCapacity, hTtl⟩
  have hSame := (bounds_run (p.serve time use).1 steps).2
  have hRetains :=
    hTop.run (h.serve time use) hSteady hKept
      (by rw [hCapacity]; exact hFew)
  rcases Cache.isSome_lastPut?_append hFirst steps with
    ⟨⟨v, since⟩, hLast⟩
  have hJoin :
      history ++ [(time, use)] ++ steps =
        history ++ (time, use) :: steps := by
    simp
  rw [hJoin] at hLast hRetains
  refine ⟨v, since, hLast, ?_⟩
  intro hLive
  rw [← hTtl, ← hSame] at hLive
  exact (hRetains (v, since) hLast hLive).get_eq hLive

end Pile

namespace Cache

variable {K V : Type} [Ord K] [Std.TransOrd K]

variable [Std.LawfulEqOrd K] [DecidableEq K]

/- A cache and a pile go on together. -/
theorem Refines.reach
    {c : Cache K V}
    {p : Pile K V}
    {last now : Nat}
    (h : c.Refines p last)
    {steps : List (Nat × Request K V)}
    (hSteady :
      (last :: (steps.map Prod.fst ++ [now])).Pairwise
        (· ≤ ·)) :
    (c.run steps).1.Refines (p.run steps).1 now := by
  induction steps generalizing c p last with
  | nil => exact h.later (by simpa using hSteady)
  | cons step steps ih =>
      rcases step with ⟨time, request⟩
      rcases List.pairwise_cons.mp hSteady with
        ⟨hFirst, hRest⟩
      have hLater : last ≤ time := hFirst time (by simp)
      exact ih (h.serve hLater request).1 hRest

/-
  A key is used by a put, or by a look-up that finds it.  As
  long as it is not removed and the cache not cleared, and
  fewer other keys are used afterwards than the cache has
  room for, a look-up answers the value that was last put
  under the key, unless this is too long ago.
-/
theorem retained_while_few_used
    (capacity ttl : Nat)
    (before after : List (Nat × Request K V))
    (time : Nat)
    (use : Request K V)
    (k : K)
    (now : Nat)
    (hSteady :
      ((before ++ (time, use) :: after).map Prod.fst ++
        [now]).Pairwise (· ≤ ·)) :
    let c : Cache K V := ((empty capacity ttl).run before).1
    let used := c.serve time use
    let later := used.1.run after
    use.used? used.2 = some k →
    (∀ s ∈ after, s.2 ≠ .remove k ∧ s.2 ≠ .clear) →
    ((usedBy after later.2).toFinset.erase k).card < capacity →
    ∃ v since,
      lastPut? k (before ++ (time, use) :: after) =
        some (v, since) ∧
      (now - since < ttl → (later.1.get now k).2 = some v) := by
  intro c used later hUsed hKept hFew
  let p : Pile K V := ((Pile.empty capacity ttl).run before).1
  rw [List.map_append, List.map_cons, List.append_assoc,
    List.cons_append, List.pairwise_append] at hSteady
  rcases hSteady with ⟨hEarly, hLate, hBetween⟩
  have hBefore :
      (0 :: (before.map Prod.fst ++ [time])).Pairwise
        (· ≤ ·) := by
    rw [List.pairwise_cons, List.pairwise_append]
    refine ⟨fun _ _ => Nat.zero_le _, hEarly,
      List.pairwise_singleton _ _, ?_⟩
    intro t hMem t' hLast
    rw [List.mem_singleton.mp hLast]
    exact hBetween t hMem time List.mem_cons_self
  have hRefines : c.Refines p time :=
    (refines_empty capacity ttl 0).reach hBefore
  have hRecalls : p.Recalls before :=
    (Pile.Recalls.empty capacity ttl).run before
  have hBounds : p.capacity = capacity ∧ p.ttl = ttl :=
    Pile.bounds_run (.empty capacity ttl) before
  rcases hRefines.serve (le_refl time) use with
    ⟨hServed, hReply⟩
  have hAfter :
      (time :: after.map Prod.fst).Pairwise (· ≤ ·) :=
    hLate.sublist
      ((List.sublist_append_left _ [now]).cons_cons time)
  have hReplies := hServed.run hAfter
  have hLater := hServed.reach hLate
  rw [hReply] at hUsed
  rw [hReplies, ← hBounds.1] at hFew
  rw [(hLater.get (le_refl now) k).2, ← hBounds.2]
  exact hRecalls.get_of_used hUsed hLate hKept hFew

/-
  Room for two entries, and three keys: the key that is looked
  up stays, and the other one has to go.
-/
theorem retained_while_few_used_two :
    let c : Cache Nat Nat :=
      ((empty 2 10).run [(0, .put 1 10), (1, .put 2 20)]).1
    let used := c.serve 2 (.get 1)
    let later := used.1.run [(3, .put 3 30), (4, .get 2)]
    used.2 = .value (some 10) ∧
      later.2 = [.count 1, .value none] ∧
      (later.1.get 9 1).2 = some 10 := by
  intro c used later
  have hUsed : used.2 = .value (some 10) := by decide +kernel
  have hLater : later.2 = [.count 1, .value none] := by
    decide +kernel
  rcases retained_while_few_used 2 10
      [(0, .put 1 10), (1, .put 2 20)]
      [(3, .put 3 30), (4, .get 2)] 2 (.get 1) 1 9
      (by decide) (by decide +kernel) (by simp)
      (by decide +kernel) with
    ⟨v, since, hLast, hGot⟩
  have hPut :
      lastPut? 1
          [(0, Request.put 1 10), (1, .put 2 20), (2, .get 1),
            (3, .put 3 30), (4, .get 2)] =
        some (10, 0) := by
    decide
  cases Option.some.inj (hPut.symm.trans hLast)
  exact ⟨hUsed, hLater, hGot (by decide)⟩

end Cache

end OrderWatch
