import OrderWatch.Proofs.Cache.Loss
import OrderWatch.Proofs.Cache.Pile

/-
  What the entries of a pile tell of its history.

  A request uses a key if it puts a value under it, or looks
  it up and finds it.  The entries of a pile have different
  keys, and each has the value that was last put under its
  key, with the time of that put: a look-up only brings an
  entry on top, and all other requests only drop entries.

  Main declarations:
    * `Cache.Request.used?`, `Cache.usedBy`
    * `Cache.lastPut?`
    * `Pile.bounds_run`
    * `Pile.Recalls`, `Pile.Recalls.run`
-/

namespace OrderWatch

------------------------------------------------------------
-- Uses and puts
------------------------------------------------------------

namespace Cache

variable {K V : Type}

/- The key that a request has used. -/
def Request.used? : Request K V → Reply K V → Option K
  | .put k _, _ => some k
  | .get k, .value (some _) => some k
  | _, _ => none

/- The keys that some requests have used. -/
def usedBy
    (steps : List (Nat × Request K V))
    (replies : List (Reply K V)) : List K :=
  (steps.zip replies).filterMap fun s => s.1.2.used? s.2

variable [DecidableEq K]

/- The value that a request puts under a key. -/
def Request.puts? (k : K) : Request K V → Option V
  | .put k' v => if k' = k then some v else none
  | _ => none

@[simp] theorem Request.puts?_put
    (k k' : K)
    (v : V) :
    (Request.put k' v).puts? k =
      if k' = k then some v else none :=
  rfl

/- The value that was last put under a key, and when. -/
def lastPut?
    (k : K)
    (steps : List (Nat × Request K V)) : Option (V × Nat) :=
  steps.reverse.findSome? fun s =>
    (s.2.puts? k).map fun v => (v, s.1)

variable {k : K} {now : Nat} {request : Request K V}
variable {history : List (Nat × Request K V)}

theorem lastPut?_of_puts
    {v : V}
    (hPuts : request.puts? k = some v) :
    lastPut? k (history ++ [(now, request)]) = some (v, now) := by
  simp [lastPut?, hPuts]

theorem lastPut?_of_other
    (hPuts : request.puts? k = none) :
    lastPut? k (history ++ [(now, request)]) =
      lastPut? k history := by
  simp [lastPut?, hPuts]

theorem Request.eq_put_of_puts
    {v : V}
    (hPuts : request.puts? k = some v) :
    request = .put k v := by
  cases request with
  | put k' w =>
      rw [puts?_put, Option.ite_none_right_eq_some] at hPuts
      rw [hPuts.1, Option.some.inj hPuts.2]
  | _ => contradiction

/- What has been put once has been put last at some time. -/
theorem isSome_lastPut?_append
    {stamp : V × Nat}
    (hLast : lastPut? k history = some stamp)
    (steps : List (Nat × Request K V)) :
    ∃ stamp', lastPut? k (history ++ steps) = some stamp' := by
  unfold lastPut? at hLast ⊢
  rw [List.reverse_append, List.findSome?_append, hLast,
    ← Option.isSome_iff_exists, Option.isSome_or]
  simp

end Cache

namespace Pile

open Cache (Entry Request Reply lastPut? usedBy)

variable {K V : Type}

theorem sublist_shrink
    (p : Pile K V)
    (now : Nat) :
    (p.shrink now).entries.Sublist p.entries := by
  unfold shrink
  split
  · exact (List.take_sublist _ _).trans List.filter_sublist
  · exact List.Sublist.refl _

variable [DecidableEq K]
variable {p q : Pile K V} {k : K} {now : Nat}
variable {history : List (Nat × Request K V)}
variable {request : Request K V}

theorem mem_of_find?
    {e : Entry K V}
    (hFound : p.find? k = some e) :
    e ∈ p.entries ∧ e.key = k :=
  ⟨List.mem_of_find?_eq_some hFound, by
    simpa using List.find?_some hFound⟩

/- No request changes what a pile has been made for. -/
theorem bounds_serve
    (p : Pile K V)
    (now : Nat)
    (request : Request K V) :
    (p.serve now request).1.capacity = p.capacity ∧
      (p.serve now request).1.ttl = p.ttl := by
  cases request with
  | put k v =>
      simp only [serve, put, shrink]
      split
      · exact ⟨rfl, rfl⟩
      · split <;> exact ⟨rfl, rfl⟩
  | get k =>
      simp only [serve, get]
      split
      · split <;> exact ⟨rfl, rfl⟩
      · exact ⟨rfl, rfl⟩
  | _ => exact ⟨rfl, rfl⟩

theorem bounds_run
    (p : Pile K V)
    (steps : List (Nat × Request K V)) :
    (p.run steps).1.capacity = p.capacity ∧
      (p.run steps).1.ttl = p.ttl := by
  induction steps generalizing p with
  | nil => exact ⟨rfl, rfl⟩
  | cons step steps ih =>
      rcases bounds_serve p step.1 step.2 with
        ⟨hCapacity, hTtl⟩
      rcases ih (p.serve step.1 step.2).1 with
        ⟨hCapacity', hTtl'⟩
      exact
        ⟨hCapacity'.trans hCapacity, hTtl'.trans hTtl⟩

------------------------------------------------------------
-- Entries and their history
------------------------------------------------------------

/-
  The entries have different keys, and each of them has the
  value that was last put under its key, and the time.
-/
structure Recalls
    (p : Pile K V)
    (history : List (Nat × Request K V)) : Prop where
  distinct : (p.entries.map Entry.key).Nodup
  latest :
    ∀ e ∈ p.entries, lastPut? e.key history = some e.stamp

namespace Recalls

theorem empty
    (capacity ttl : Nat) :
    (Pile.empty capacity ttl : Pile K V).Recalls [] where
  distinct := List.nodup_nil
  latest := fun _ hMem => absurd hMem List.not_mem_nil

/- Where entries only go, the others are as they were. -/
theorem sublist
    (h : p.Recalls history)
    (hSublist : q.entries.Sublist p.entries) :
    q.Recalls history where
  distinct := h.distinct.sublist (hSublist.map Entry.key)
  latest := fun e hMem => h.latest e (hSublist.subset hMem)

/- A request that puts nothing is not remembered. -/
theorem other
    (h : p.Recalls history)
    (hPuts : ∀ k, request.puts? k = none) :
    p.Recalls (history ++ [(now, request)]) where
  distinct := h.distinct
  latest := by
    intro e hMem
    rw [Cache.lastPut?_of_other (hPuts e.key)]
    exact h.latest e hMem

/- An entry that has not been there comes on top. -/
theorem distinct_top
    (h : p.Recalls history)
    (e : Entry K V) :
    ((e :: p.without e.key).map Entry.key).Nodup := by
  rw [List.map_cons, List.nodup_cons]
  constructor
  · intro hMem
    rcases List.mem_map.mp hMem with ⟨d, hOther, hKey⟩
    have hApart := (List.mem_filter.mp hOther).2
    simp [hKey] at hApart
  · exact h.distinct.sublist (List.filter_sublist.map Entry.key)

/- A look-up leaves an entry its value and its age. -/
theorem touched
    (h : p.Recalls history)
    {e : Entry K V}
    (hMem : e ∈ p.entries) :
    ({ p with
        entries :=
          { e with lastAccess := now } ::
            p.without e.key }).Recalls history where
  distinct := h.distinct_top { e with lastAccess := now }
  latest := by
    intro d hTop
    rcases List.mem_cons.mp hTop with rfl | hOther
    · exact h.latest e hMem
    · exact h.latest d (List.mem_of_mem_filter hOther)

theorem heaped
    (h : p.Recalls history)
    (now : Nat)
    (k : K)
    (v : V) :
    ({ p with
        entries := ⟨k, v, now, now⟩ :: p.without k }).Recalls
      (history ++ [(now, Request.put k v)]) where
  distinct := h.distinct_top ⟨k, v, now, now⟩
  latest := by
    intro d hTop
    rcases List.mem_cons.mp hTop with rfl | hOther
    · exact Cache.lastPut?_of_puts (by simp)
    · rcases List.mem_filter.mp hOther with ⟨hMem, hApart⟩
      have hApart : d.key ≠ k := by simpa using hApart
      rw [Cache.lastPut?_of_other
        (by simp [Ne.symm hApart])]
      exact h.latest d hMem

end Recalls

/- Every request leaves the entries as their history tells. -/
theorem Recalls.serve
    (h : p.Recalls history)
    (now : Nat)
    (request : Request K V) :
    (p.serve now request).1.Recalls
      (history ++ [(now, request)]) := by
  cases request with
  | put k v =>
      have hHeaped := h.heaped now k v
      simp only [Pile.serve, put]
      split
      · exact hHeaped
      · exact hHeaped.sublist (sublist_shrink _ now)
  | get k =>
      have hOther : p.Recalls (history ++ [(now, .get k)]) :=
        h.other fun _ => rfl
      simp only [Pile.serve, get]
      split
      · rename_i e hFound
        rcases mem_of_find? hFound with ⟨hMem, hKey⟩
        split
        · rw [← hKey] at hOther ⊢
          exact hOther.touched hMem
        · exact hOther.sublist List.filter_sublist
      · exact hOther
  | remove k =>
      have hOther : p.Recalls (history ++ [(now, .remove k)]) :=
        h.other fun _ => rfl
      exact hOther.sublist List.filter_sublist
  | purge =>
      have hOther : p.Recalls (history ++ [(now, .purge)]) :=
        h.other fun _ => rfl
      exact hOther.sublist List.filter_sublist
  | clear =>
      have hOther : p.Recalls (history ++ [(now, .clear)]) :=
        h.other fun _ => rfl
      exact hOther.sublist (List.nil_sublist _)
  | _ => exact h.other fun _ => rfl

/- So does a run. -/
theorem Recalls.run
    (h : p.Recalls history)
    (steps : List (Nat × Request K V)) :
    (p.run steps).1.Recalls (history ++ steps) := by
  induction steps generalizing p history with
  | nil =>
      rw [List.append_nil]
      exact h
  | cons step steps ih =>
      have hRest := ih (h.serve step.1 step.2)
      rw [List.append_assoc] at hRest
      exact hRest

end Pile

end OrderWatch
