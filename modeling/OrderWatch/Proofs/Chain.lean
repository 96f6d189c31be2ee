import Mathlib.Data.List.Induction
import Mathlib.Data.List.Nodup
import Mathlib.Data.List.TakeWhile
import OrderWatch.Cache.Chain

/-
  Chains as lists of slots.

  A chain spells a list if its links lead through the slots
  of the list, in both directions and in that order, and if
  no other slot has a link.  Every operation on chains is
  then an operation on lists.

  Main declarations:
    * `Chain.Spells`
    * `Chain.Spells.pushFront`
    * `Chain.Spells.detach`
    * `Chain.Spells.toFront`
    * `Chain.Spells.forward_eq`
    * `Chain.Spells.backwardWhile_eq`
    * `Chain.Threads`, `Chain.Spells.threads`
-/

namespace OrderWatch

namespace Chain

------------------------------------------------------------
-- Lists without a slot
------------------------------------------------------------

theorem filter_ne_of_not_mem
    {slots : List Nat}
    {i : Nat}
    (hOut : i ∉ slots) :
    slots.filter (· ≠ i) = slots := by
  rw [List.filter_eq_self]
  intro j hMem
  have hOther : j ≠ i := by
    intro hSame
    exact hOut (hSame ▸ hMem)
  simpa using hOther

/- A slot that occurs once leaves what stands around it. -/
theorem filter_ne_of_split
    (xs ys : List Nat)
    {i : Nat}
    (hNodup : (xs ++ i :: ys).Nodup) :
    (xs ++ i :: ys).filter (· ≠ i) = xs ++ ys := by
  have hApart := (List.nodup_middle.mp hNodup).notMem
  simp only [List.mem_append, not_or] at hApart
  rw [List.filter_append, filter_ne_of_not_mem hApart.1,
    List.filter_cons_of_neg (by simp),
    filter_ne_of_not_mem hApart.2]

theorem length_filter_ne
    {slots : List Nat}
    {i : Nat}
    (hNodup : slots.Nodup)
    (hMem : i ∈ slots) :
    (slots.filter (· ≠ i)).length + 1 = slots.length := by
  rcases List.append_of_mem hMem with ⟨xs, ys, rfl⟩
  rw [filter_ne_of_split xs ys hNodup]
  simp only [List.length_append, List.length_cons]
  omega

/- A slot that moves to the front leaves the same slots. -/
theorem perm_cons_filter_ne
    {slots : List Nat}
    {i : Nat}
    (hNodup : slots.Nodup)
    (hMem : i ∈ slots) :
    (i :: slots.filter (· ≠ i)).Perm slots := by
  rcases List.append_of_mem hMem with ⟨xs, ys, rfl⟩
  rw [filter_ne_of_split xs ys hNodup]
  exact List.perm_middle.symm

------------------------------------------------------------
-- Links
------------------------------------------------------------

theorem getElem?_relink
    (links : Std.ExtTreeMap Nat Link compare)
    (f : Link → Link)
    (o : Option Nat)
    (i : Nat) :
    (relink links f o)[i]? =
      if o = some i then links[i]?.map f else links[i]? := by
  cases o with
  | none => simp [relink]
  | some j =>
      by_cases hSame : j = i
      · subst j
        simp [relink]
      · simp [relink, Std.ExtTreeMap.getElem?_modify, hSame]

@[simp] theorem size_relink
    (links : Std.ExtTreeMap Nat Link compare)
    (f : Link → Link)
    (o : Option Nat) :
    (relink links f o).size = links.size := by
  cases o with
  | none => rfl
  | some j => exact Std.ExtTreeMap.size_modify

------------------------------------------------------------
-- Spelling
------------------------------------------------------------

/- The links of a chain lead through a list of slots. -/
structure Spells (c : Chain) (slots : List Nat) : Prop where
  nodup : slots.Nodup
  first_eq : c.first = slots.head?
  last_eq : c.last = slots.getLast?
  size_eq : c.links.size = slots.length
  /- A slot is linked to the ones before and after it. -/
  link_eq :
    ∀ xs i ys, slots = xs ++ i :: ys →
      c.links[i]? = some ⟨xs.getLast?, ys.head?⟩
  link_none : ∀ i, i ∉ slots → c.links[i]? = none

variable {c : Chain} {slots : List Nat}

theorem spells_empty : Chain.Spells ∅ [] where
  nodup := List.nodup_nil
  first_eq := rfl
  last_eq := rfl
  size_eq := rfl
  link_eq := by
    intro xs i ys hSplit
    simp at hSplit
  link_none := by
    intro i _
    exact Std.ExtTreeMap.getElem?_empty

/- Exactly the slots of the list have links. -/
theorem Spells.mem_links
    (h : c.Spells slots)
    (i : Nat) :
    i ∈ c.links ↔ i ∈ slots := by
  rw [Std.ExtTreeMap.mem_iff_isSome_getElem?]
  constructor
  · intro hSome
    by_contra hOut
    simp [h.link_none i hOut] at hSome
  · intro hMem
    rcases List.append_of_mem hMem with ⟨xs, ys, hSplit⟩
    simp [h.link_eq xs i ys hSplit]

/- A slot in front of all others has nothing before it. -/
theorem Spells.first_iff
    (h : c.Spells slots)
    {xs ys : List Nat}
    {i : Nat}
    (hSplit : slots = xs ++ i :: ys) :
    c.first = some i ↔ xs = [] := by
  have hNodup := h.nodup
  rw [h.first_eq, hSplit]
  rw [hSplit] at hNodup
  cases xs with
  | nil => simp
  | cons x xs =>
      have hOther : x ≠ i := by
        intro hSame
        subst x
        simp at hNodup
      simp [hOther]

------------------------------------------------------------
-- Putting in front
------------------------------------------------------------

/- A new slot comes first. -/
theorem Spells.pushFront
    (h : c.Spells slots)
    {i : Nat}
    (hNew : i ∉ slots) :
    (c.pushFront i).Spells (i :: slots) where
  nodup := List.nodup_cons.mpr ⟨hNew, h.nodup⟩
  first_eq := rfl
  last_eq := by
    simp only [Chain.pushFront, h.last_eq]
    cases slots with
    | nil => rfl
    | cons x xs => simp [List.getLast?_cons]
  size_eq := by
    have hOut :
        i ∉ relink c.links
          (fun l => { l with before := some i }) c.first := by
      rw [Std.ExtTreeMap.mem_iff_isSome_getElem?,
        getElem?_relink, h.link_none i hNew]
      simp
    simp [Chain.pushFront, Std.ExtTreeMap.size_insert, hOut,
      h.size_eq]
  link_eq := by
    intro xs j ys hSplit
    cases xs with
    | nil =>
        rcases List.cons.inj hSplit with ⟨rfl, rfl⟩
        simp [Chain.pushFront, h.first_eq]
    | cons x xs =>
        rcases List.cons.inj hSplit with ⟨rfl, hRest⟩
        have hMem : j ∈ slots := by simp [hRest]
        have hOther : i ≠ j := by
          intro hSame
          exact hNew (hSame ▸ hMem)
        have hLink := h.link_eq xs j ys hRest
        have hFirst := h.first_iff hRest
        have hGet :
            (c.pushFront i).links[j]? =
              (relink c.links
                (fun l => { l with before := some i })
                  c.first)[j]? := by
          simp [Chain.pushFront, Std.ExtTreeMap.getElem?_insert,
            hOther]
        rw [hGet, getElem?_relink, hLink]
        by_cases hNil : xs = []
        · rw [if_pos (hFirst.mpr hNil)]
          simp [hNil]
        · rw [if_neg (fun hSome => hNil (hFirst.mp hSome))]
          rw [List.getLast?_cons_of_ne_nil hNil]
  link_none := by
    intro j hOut
    have hOther : i ≠ j := by
      intro hSame
      simp [hSame] at hOut
    have hOld : c.links[j]? = none :=
      h.link_none j (fun hMem => hOut (by simp [hMem]))
    simp [Chain.pushFront, Std.ExtTreeMap.getElem?_insert,
      hOther, getElem?_relink, hOld]

------------------------------------------------------------
-- Taking out
------------------------------------------------------------

/- The links of the slots that stay. -/
theorem Spells.getElem?_detach
    {xs ys : List Nat}
    {i j : Nat}
    (h : c.Spells (xs ++ i :: ys))
    (hOther : j ≠ i) :
    (c.detach i).links[j]? =
      c.links[j]?.map fun k =>
        { before :=
            if ys.head? = some j then xs.getLast?
            else k.before
          after :=
            if xs.getLast? = some j then ys.head?
            else k.after } := by
  have hErased : (c.links.erase i)[j]? = c.links[j]? := by
    simp [Std.ExtTreeMap.getElem?_erase, Ne.symm hOther]
  simp only [Chain.detach, h.link_eq xs i ys rfl,
    getElem?_relink, hErased]
  by_cases hBefore : xs.getLast? = some j <;>
    by_cases hAfter : ys.head? = some j <;>
      simp [hBefore, hAfter, Function.comp_def]

/- A slot behind the one taken out. -/
theorem Spells.link_behind
    (xs as ys : List Nat)
    {i j : Nat}
    (h : c.Spells (xs ++ i :: (as ++ j :: ys))) :
    (c.detach i).links[j]? =
      some ⟨(xs ++ as).getLast?, ys.head?⟩ := by
  have hNodup := h.nodup
  simp only [List.nodup_append, List.nodup_cons,
    List.mem_append, List.mem_cons] at hNodup
  have hOther : j ≠ i := by grind
  have hNotLast : xs.getLast? ≠ some j := by
    intro hLast
    have hMem := List.mem_of_getLast? hLast
    grind
  rw [h.getElem?_detach hOther,
    h.link_eq (xs ++ i :: as) j ys (by simp)]
  cases as with
  | nil => simp [hNotLast]
  | cons a as =>
      have hNotNext : a ≠ j := by grind
      simp [hNotLast, hNotNext, List.getLast?_append,
        List.getLast?_cons]

/- A slot before the one taken out. -/
theorem Spells.link_ahead
    {xs as ys : List Nat}
    {i j : Nat}
    (h : c.Spells ((xs ++ j :: as) ++ i :: ys)) :
    (c.detach i).links[j]? =
      some ⟨xs.getLast?, (as ++ ys).head?⟩ := by
  have hNodup := h.nodup
  simp only [List.nodup_append, List.nodup_cons,
    List.mem_append, List.mem_cons] at hNodup
  have hOther : j ≠ i := by grind
  have hNotNext : ys.head? ≠ some j := by
    intro hHead
    have hMem := List.mem_of_head? hHead
    grind
  rw [h.getElem?_detach hOther,
    h.link_eq xs j (as ++ i :: ys) (by simp)]
  cases as with
  | nil => simp [hNotNext]
  | cons a as =>
      have hNotLast :
          (xs ++ j :: a :: as).getLast? ≠ some j := by
        intro hLast
        have hMem : j ∈ a :: as := by
          apply List.mem_of_getLast?
          simpa [List.getLast?_append, List.getLast?_cons]
            using hLast
        grind
      simp only [Option.map_some, if_neg hNotLast,
        if_neg hNotNext]
      simp

/- The neighbours of a slot that is taken out are joined. -/
theorem Spells.detach_between
    {xs ys : List Nat}
    {i : Nat}
    (h : c.Spells (xs ++ i :: ys)) :
    (c.detach i).Spells (xs ++ ys) where
  nodup := by
    have hNodup := h.nodup
    simp only [List.nodup_append, List.nodup_cons] at hNodup ⊢
    grind
  first_eq := by
    have hFirst := h.first_eq
    simp only [Chain.detach, h.link_eq xs i ys rfl]
    cases xs with
    | nil => simp
    | cons x xs => simpa [List.getLast?_cons] using hFirst
  last_eq := by
    have hLast := h.last_eq
    simp only [Chain.detach, h.link_eq xs i ys rfl]
    cases ys with
    | nil => simp
    | cons y ys =>
        simpa [List.getLast?_append, List.getLast?_cons]
          using hLast
  size_eq := by
    have hMem : i ∈ c.links := (h.mem_links i).mpr (by simp)
    have hSize := h.size_eq
    simp only [Chain.detach, h.link_eq xs i ys rfl,
      size_relink, Std.ExtTreeMap.size_erase]
    simp only [List.length_append, List.length_cons] at hSize ⊢
    simp [hMem]
    omega
  link_eq := by
    intro zs j ws hSplit
    rcases List.append_eq_append_iff.mp hSplit with
      ⟨as, rfl, rfl⟩ | ⟨as, rfl, hRest⟩
    · exact h.link_behind xs as ws
    · cases as with
      | nil =>
          rw [List.nil_append] at hRest
          subst hRest
          rw [List.append_nil] at h
          have hBehind := h.link_behind zs [] ws
          rwa [List.append_nil] at hBehind
      | cons a as =>
          rcases List.cons.inj hRest with ⟨rfl, rfl⟩
          exact h.link_ahead
  link_none := by
    intro j hOut
    simp only [List.mem_append, not_or] at hOut
    by_cases hSame : j = i
    · subst j
      simp [Chain.detach, h.link_eq xs i ys rfl,
        getElem?_relink]
    · have hOld : c.links[j]? = none := by
        apply h.link_none
        simp [hOut, hSame]
      rw [h.getElem?_detach hSame, hOld]
      rfl

/- A slot is taken out of the list. -/
theorem Spells.detach
    (h : c.Spells slots)
    (i : Nat) :
    (c.detach i).Spells (slots.filter (· ≠ i)) := by
  by_cases hMem : i ∈ slots
  · rcases List.append_of_mem hMem with ⟨xs, ys, rfl⟩
    rw [filter_ne_of_split xs ys h.nodup]
    exact h.detach_between
  · have hSame : c.detach i = c := by
      simp [Chain.detach, h.link_none i hMem]
    rw [hSame, filter_ne_of_not_mem hMem]
    exact h

/- A slot moves to the front of the list. -/
theorem Spells.toFront
    (h : c.Spells slots)
    {i : Nat}
    (hMem : i ∈ slots) :
    (c.toFront i).Spells (i :: slots.filter (· ≠ i)) := by
  unfold Chain.toFront
  by_cases hFirst : c.first = some i
  · rw [if_pos hFirst]
    rw [h.first_eq] at hFirst
    rcases List.head?_eq_some_iff.mp hFirst with ⟨rest, rfl⟩
    have hKept : (i :: rest).filter (· ≠ i) = rest :=
      filter_ne_of_split [] rest h.nodup
    rw [hKept]
    exact h
  · rw [if_neg hFirst]
    exact (h.detach i).pushFront (by simp)

------------------------------------------------------------
-- Walking
------------------------------------------------------------

/- A walk on from a slot meets those behind it. -/
theorem Spells.walk_after
    (h : c.Spells slots)
    (p : Nat → Bool)
    (n : Nat)
    (xs ys : List Nat)
    (hSplit : slots = xs ++ ys)
    (hEnough : ys.length ≤ n) :
    c.walk Link.after p n ys.head? = ys.takeWhile p := by
  induction ys generalizing xs n with
  | nil => cases n <;> rfl
  | cons y ys ih =>
      cases n with
      | zero => simp at hEnough
      | succ n =>
          have hNext :=
            ih n (xs ++ [y]) (by simp [hSplit])
              (by simpa using hEnough)
          have hLink := h.link_eq xs y ys hSplit
          simp only [List.head?_cons, walk, hLink,
            Option.bind_some, hNext, List.takeWhile_cons]

/- A walk back from a slot meets those before it. -/
theorem Spells.walk_before
    (h : c.Spells slots)
    (p : Nat → Bool)
    (n : Nat)
    (xs ys : List Nat)
    (hSplit : slots = xs ++ ys)
    (hEnough : xs.length ≤ n) :
    c.walk Link.before p n xs.getLast? =
      xs.reverse.takeWhile p := by
  induction xs using List.reverseRecOn generalizing n ys with
  | nil => cases n <;> rfl
  | append_singleton xs x ih =>
      cases n with
      | zero => simp at hEnough
      | succ n =>
          have hNext :=
            ih n (x :: ys) (by simp [hSplit])
              (by simpa using hEnough)
          have hLink := h.link_eq xs x ys (by simp [hSplit])
          simp only [List.getLast?_append, List.getLast?_singleton,
            Option.some_or, walk, hLink, Option.bind_some, hNext,
            List.reverse_append, List.reverse_singleton,
            List.singleton_append, List.takeWhile_cons]

/-
  From the first slot on, all slots are met, however many
  steps are allowed beyond their number.
-/
theorem Spells.walk_forward
    (h : c.Spells slots)
    {n : Nat}
    (hEnough : c.links.size ≤ n) :
    c.walk Link.after (fun _ => true) n c.first = slots := by
  rw [h.size_eq] at hEnough
  rw [h.first_eq,
    h.walk_after (fun _ => true) n [] slots rfl hEnough,
    List.takeWhile_eq_self_iff]
  simp

theorem Spells.forward_eq
    (h : c.Spells slots) :
    c.forward = slots :=
  h.walk_forward (Nat.le_refl _)

/- From the last slot on, slots are met in reverse. -/
theorem Spells.walk_backward
    (h : c.Spells slots)
    (p : Nat → Bool)
    {n : Nat}
    (hEnough : c.links.size ≤ n) :
    c.walk Link.before p n c.last = slots.reverse.takeWhile p := by
  rw [h.size_eq] at hEnough
  rw [h.last_eq, h.walk_before p n slots [] (by simp) hEnough]

theorem Spells.backwardWhile_eq
    (h : c.Spells slots)
    (p : Nat → Bool) :
    c.backwardWhile p = slots.reverse.takeWhile p :=
  h.walk_backward p (Nat.le_refl _)

theorem Spells.backward_eq
    (h : c.Spells slots) :
    c.backward = slots.reverse := by
  rw [backward, h.backwardWhile_eq, List.takeWhile_eq_self_iff]
  simp

------------------------------------------------------------
-- Threads
------------------------------------------------------------

/-
  A chain that leads through the slots with a property, there
  and back, and through no others.
-/
structure Threads (c : Chain) (p : Nat → Prop) : Prop where
  mem_links : ∀ i, i ∈ c.links ↔ p i
  /- The way there meets each of the slots once. -/
  forward_nodup : c.forward.Nodup
  mem_forward : ∀ i, i ∈ c.forward ↔ p i
  /- It begins and ends at the ends of the chain. -/
  first_eq : c.first = c.forward.head?
  last_eq : c.last = c.forward.getLast?
  /- No further steps lead on from its end. -/
  forward_whole :
    ∀ n, c.links.size ≤ n →
      c.walk Link.after (fun _ => true) n c.first = c.forward
  backward_eq : c.backward = c.forward.reverse
  backward_whole :
    ∀ n, c.links.size ≤ n →
      c.walk Link.before (fun _ => true) n c.last = c.backward
  /- What comes after a slot is what the slot comes before. -/
  after_iff_before :
    ∀ i j, c.links[i]?.bind Link.after = some j ↔
      c.links[j]?.bind Link.before = some i

/- Links that lead from one slot to another lead back. -/
theorem Spells.after_iff_before
    (h : c.Spells slots)
    (i j : Nat) :
    c.links[i]?.bind Link.after = some j ↔
      c.links[j]?.bind Link.before = some i := by
  constructor
  · intro hAfter
    by_cases hMem : i ∈ slots
    · rcases List.append_of_mem hMem with ⟨xs, ys, hSplit⟩
      rw [h.link_eq xs i ys hSplit] at hAfter
      rcases List.head?_eq_some_iff.mp hAfter with ⟨zs, rfl⟩
      rw [h.link_eq (xs ++ [i]) j zs (by simp [hSplit])]
      simp
    · rw [h.link_none i hMem] at hAfter
      contradiction
  · intro hBefore
    by_cases hMem : j ∈ slots
    · rcases List.append_of_mem hMem with ⟨xs, ys, hSplit⟩
      rw [h.link_eq xs j ys hSplit] at hBefore
      rcases List.getLast?_eq_some_iff.mp hBefore with ⟨zs, rfl⟩
      rw [h.link_eq zs i (j :: ys) (by simp [hSplit])]
      rfl
    · rw [h.link_none j hMem] at hBefore
      contradiction

/- A chain leads through the slots of the list it spells. -/
theorem Spells.threads
    (h : c.Spells slots) :
    c.Threads (· ∈ slots) where
  mem_links := h.mem_links
  forward_nodup := by
    rw [h.forward_eq]
    exact h.nodup
  mem_forward := by
    intro i
    rw [h.forward_eq]
  first_eq := by
    rw [h.forward_eq, h.first_eq]
  last_eq := by
    rw [h.forward_eq, h.last_eq]
  forward_whole := by
    intro n hEnough
    rw [h.walk_forward hEnough, h.forward_eq]
  backward_eq := by
    rw [h.backward_eq, h.forward_eq]
  backward_whole := by
    intro n hEnough
    rw [h.walk_backward _ hEnough, ← h.backwardWhile_eq]
    rfl
  after_iff_before := h.after_iff_before

end Chain

end OrderWatch
