import OrderWatch.Proofs.Book.Places
import OrderWatch.Proofs.Desk.Fills

/-
  Retirement does not show.

  Two books are compared name by name.  Under each name they
  have the same, or an order that is active in one and has
  been retired in the other, not long ago, with the same
  record.  As long as it is not long ago, whatever is done to
  both books leaves them so, provided that no order is pushed
  out of a cache.  Look-ups find the same records, so updates
  are answered alike, and nobody who looks an order up or
  updates it can tell whether it has been stopped.

  Main declarations:
    * `Place.Keeps`, `Place.Twin`
    * `Book.Twin`
    * `Desk.Twin`, `Desk.Twin.process`
    * `Desk.Twin.perform`, `Desk.Twin.run`
    * `Desk.retirement_transparent`
-/

namespace OrderWatch

------------------------------------------------------------
-- Places
------------------------------------------------------------

namespace Place

variable {since now ttl : Nat} {p q : Place} {o : Order}

/-
  An order is active in a place, or it has been retired there
  since some time.
-/
def Keeps (since : Nat) (o : Order) (p : Place) : Prop :=
  p.active = some o ∨
    (p.active = none ∧
      ∃ time, since ≤ time ∧ p.retired = some (o, time))

/- Two places that are the same, or that keep one order. -/
inductive Twin (since : Nat) : Place → Place → Prop where
  | same (p : Place) : Twin since p p
  | kept {p q : Place} {o : Order} :
      p.Keeps since o → q.Keeps since o → Twin since p q

theorem Keeps.found_eq
    (h : p.Keeps since o) :
    p.found = some o := by
  unfold found
  rcases h with hActive | ⟨hGone, time, _, hRetired⟩
  · rw [hActive, Option.some_or]
  · rw [hGone, hRetired]
    rfl

theorem keeps_start
    (p : Place)
    (since : Nat)
    (o : Order) :
    (p.start o).Keeps since o :=
  .inl rfl

theorem Keeps.write
    (h : p.Keeps since o)
    (o' : Order) :
    (p.write o').Keeps since o' := by
  unfold Place.write
  rcases h with hActive | ⟨hGone, time, hLater, hRetired⟩
  · rw [hActive]
    exact .inl rfl
  · rw [hGone, hRetired]
    exact .inr ⟨rfl, time, hLater, rfl⟩

theorem Keeps.stop
    (h : p.Keeps since o)
    (hSince : since ≤ now) :
    (p.stop now).Keeps since o := by
  unfold Place.stop
  rcases h with hActive | ⟨hGone, hRetired⟩
  · rw [hActive]
    exact .inr ⟨rfl, now, hSince, rfl⟩
  · rw [hGone]
    exact .inr ⟨hGone, hRetired⟩

/- What has been retired since then lives for a while. -/
theorem Keeps.later
    (h : p.Keeps since o)
    (hSince : since ≤ now)
    (hSoon : now < since + ttl) :
    (p.later ttl now).Keeps since o := by
  rcases h with hActive | ⟨hGone, time, hLater, hRetired⟩
  · exact .inl hActive
  · refine .inr ⟨hGone, time, hLater, ?_⟩
    have hLives : now - time < ttl := by omega
    unfold Place.later
    rw [hRetired]
    simp [hLives]

namespace Twin

theorem found_eq
    (h : p.Twin since q) :
    q.found = p.found := by
  cases h with
  | same => rfl
  | kept hKeeps hKeeps' => rw [hKeeps.found_eq, hKeeps'.found_eq]

theorem start
    (p q : Place)
    (since : Nat)
    (o : Order) :
    (p.start o).Twin since (q.start o) :=
  .kept (keeps_start p since o) (keeps_start q since o)

theorem write
    (h : p.Twin since q)
    (o : Order) :
    (p.write o).Twin since (q.write o) := by
  cases h with
  | same => exact .same _
  | kept hKeeps hKeeps' =>
      exact .kept (hKeeps.write o) (hKeeps'.write o)

theorem stop
    (h : p.Twin since q)
    (hSince : since ≤ now) :
    (p.stop now).Twin since (q.stop now) := by
  cases h with
  | same => exact .same _
  | kept hKeeps hKeeps' =>
      exact .kept (hKeeps.stop hSince) (hKeeps'.stop hSince)

theorem later
    (h : p.Twin since q)
    (hSince : since ≤ now)
    (hSoon : now < since + ttl) :
    (p.later ttl now).Twin since (q.later ttl now) := by
  cases h with
  | same => exact .same _
  | kept hKeeps hKeeps' =>
      exact
        .kept (hKeeps.later hSince hSoon)
          (hKeeps'.later hSince hSoon)

end Twin

end Place

------------------------------------------------------------
-- Books
------------------------------------------------------------

namespace Book

/-
  Two books, made alike, with twin places, at a time when no
  order has expired that has been retired since then.
-/
structure Twin
    (capacity ttl since : Nat)
    (b d : Book)
    (now : Nat) : Prop where
  made : b.Made capacity ttl
  made' : d.Made capacity ttl
  since_le : since ≤ now
  soon : now < since + ttl
  places : ∀ k, (b.place now k).Twin since (d.place now k)

namespace Twin

variable {capacity ttl since now : Nat}
variable {b d b' d' : Book} {id : OrderId}

theorem later
    {last : Nat}
    (h : Twin capacity ttl since b d last)
    (hLater : last ≤ now)
    (hSoon : now < since + ttl) :
    Twin capacity ttl since b d now where
  made := h.made
  made' := h.made'
  since_le := h.since_le.trans hLater
  soon := hSoon
  places := by
    intro k
    rw [place_later hLater, place_later hLater, h.made.ttl_eq,
      h.made'.ttl_eq]
    exact (h.places k).later (h.since_le.trans hLater) hSoon

theorem start
    (h : Twin capacity ttl since b d now)
    (o : Order) :
    Twin capacity ttl since (b.start o) (d.start o) now where
  made := (lasting_made capacity ttl).start h.made
  made' := (lasting_made capacity ttl).start h.made'
  since_le := h.since_le
  soon := h.soon
  places := by
    intro k
    rw [place_start, place_start]
    split
    · exact .start _ _ since o
    · exact h.places k

/- What changes no place leaves twins. -/
theorem congr
    (h : Twin capacity ttl since b d now)
    (hMade : b'.Made capacity ttl)
    (hMade' : d'.Made capacity ttl)
    (hPlaces : ∀ k, b'.place now k = b.place now k)
    (hPlaces' : ∀ k, d'.place now k = d.place now k) :
    Twin capacity ttl since b' d' now where
  made := hMade
  made' := hMade'
  since_le := h.since_le
  soon := h.soon
  places := by
    intro k
    rw [hPlaces, hPlaces']
    exact h.places k

/- A look-up is answered alike. -/
theorem find
    (h : Twin capacity ttl since b d now)
    (id : OrderId) :
    Twin capacity ttl since (b.find now id).1
        (d.find now id).1 now ∧
      (d.find now id).2 = (b.find now id).2 := by
  have hLasting := lasting_made capacity ttl
  constructor
  · exact
      h.congr (hLasting.find h.made) (hLasting.find h.made')
        (place_find h.made.whole id)
        (place_find h.made'.whole id)
  · rw [find_place, find_place]
    exact (h.places id).found_eq

/- Nobody asks what is found among the retired orders only. -/
theorem findRetired
    (h : Twin capacity ttl since b d now)
    (id : OrderId) :
    Twin capacity ttl since (b.findRetired now id).1
      (d.findRetired now id).1 now := by
  have hLasting := lasting_made capacity ttl
  exact
    h.congr (hLasting.findRetired h.made)
      (hLasting.findRetired h.made')
      (place_findRetired h.made.whole id)
      (place_findRetired h.made'.whole id)

theorem purge
    (h : Twin capacity ttl since b d now) :
    Twin capacity ttl since (b.purge now).1 (d.purge now).1
      now := by
  have hLasting := lasting_made capacity ttl
  exact
    h.congr (hLasting.purge h.made) (hLasting.purge h.made')
      (place_purge h.made.whole) (place_purge h.made'.whole)

theorem write
    (h : Twin capacity ttl since b d now)
    (o : Order) :
    Twin capacity ttl since (b.write o) (d.write o) now where
  made := (lasting_made capacity ttl).write h.made
  made' := (lasting_made capacity ttl).write h.made'
  since_le := h.since_le
  soon := h.soon
  places := by
    intro k
    rw [place_write h.made.whole, place_write h.made'.whole]
    split
    · exact (h.places k).write o
    · exact h.places k

/- An order is retired in both books, or in one of them. -/
theorem stop
    (h : Twin capacity ttl since b d now)
    (hRoom : (b.stop now id).2.getD 0 = 0)
    (hRoom' : (d.stop now id).2.getD 0 = 0) :
    Twin capacity ttl since (b.stop now id).1
      (d.stop now id).1 now where
  made := (lasting_made capacity ttl).stop h.made
  made' := (lasting_made capacity ttl).stop h.made'
  since_le := h.since_le
  soon := h.soon
  places := by
    intro k
    have hTtl : 0 < ttl := by
      have hSince := h.since_le
      have hSoon := h.soon
      omega
    rw [place_stop h.made.whole (h.made.ttl_eq.symm ▸ hTtl) hRoom,
      place_stop h.made'.whole (h.made'.ttl_eq.symm ▸ hTtl)
        hRoom']
    split
    · exact (h.places k).stop h.since_le
    · exact h.places k

/- An order that has just been stopped is kept all the same. -/
theorem of_stop
    {o : Order}
    (hMade : b.Made capacity ttl)
    (hTtl : 0 < ttl)
    (hActive : b.active[id]? = some o)
    (hRoom : (b.stop now id).2.getD 0 = 0) :
    Twin capacity ttl now b (b.stop now id).1 now where
  made := hMade
  made' := (lasting_made capacity ttl).stop hMade
  since_le := le_refl now
  soon := Nat.lt_add_of_pos_right hTtl
  places := by
    intro k
    rw [place_stop hMade.whole (hMade.ttl_eq.symm ▸ hTtl) hRoom]
    split
    · rename_i hSame
      have hKeeps : (b.place now k).Keeps now o := by
        rw [hSame]
        exact .inl hActive
      exact .kept hKeeps (hKeeps.stop (le_refl now))
    · exact .same _

end Twin

end Book

------------------------------------------------------------
-- Desks
------------------------------------------------------------

/- Whether an action updates an order or looks it up. -/
def Action.looksUp : Action → Bool
  | .update _ | .fetch _ => true
  | _ => false

variable {L μ : Type}

/- Two desks with the same surroundings and twin books. -/
structure Desk.Twin
    (capacity ttl since : Nat)
    (d d' : Desk L μ) : Prop where
  policy_eq : d'.tracker.policy = d.tracker.policy
  around : d.SameAround d'
  book :
    Book.Twin capacity ttl since d.tracker.book
      d'.tracker.book d.tracker.now

namespace Desk

variable {hear : Hearing L μ} {d d' : Desk L μ}

/- Other actions than updates leave what is outside. -/
theorem outside_perform
    (hear : Hearing L μ)
    (d : Desk L μ)
    {a : Action}
    (hOther : ∀ u, a ≠ .update u) :
    d.SameOutside (d.perform hear a).1 := by
  cases a with
  | update u => exact absurd rfl (hOther u)
  | _ => exact ⟨rfl, rfl⟩

namespace Twin

variable {capacity ttl since : Nat}

theorem now_eq
    (h : Twin capacity ttl since d d') :
    d'.tracker.now = d.tracker.now :=
  congrArg Time.Clock.elapsed h.around.clock_eq

/- The same is found, though perhaps in another place. -/
theorem find_eq
    (h : Twin capacity ttl since d d')
    (id : OrderId) :
    (d'.tracker.book.find d'.tracker.now id).2 =
      (d.tracker.book.find d.tracker.now id).2 := by
  rw [h.now_eq]
  exact (h.book.find id).2

/- The books after an action other than an update. -/
theorem bookAfter
    (h : Twin capacity ttl since d d')
    {a : Action}
    (hRoom : d.displaced hear a = 0)
    (hRoom' : d'.displaced hear a = 0)
    (hOther : ∀ u, a ≠ .update u) :
    Book.Twin capacity ttl since (d.bookAfter a)
      (d'.bookAfter a) d.tracker.now := by
  cases a with
  | update u => exact absurd rfl (hOther u)
  | start o => exact h.book.start o
  | stop id =>
      unfold displaced at hRoom hRoom'
      rw [h.now_eq] at hRoom'
      unfold Desk.bookAfter
      rw [h.now_eq]
      exact h.book.stop hRoom hRoom'
  | fetch id =>
      unfold Desk.bookAfter
      rw [h.now_eq]
      exact (h.book.find id).1
  | fetchRetired id =>
      unfold Desk.bookAfter
      rw [h.now_eq]
      exact h.book.findRetired id
  | purge =>
      unfold Desk.bookAfter
      rw [h.now_eq]
      exact h.book.purge
  | sweep =>
      unfold Desk.bookAfter
      rw [h.now_eq]
      exact h.book.purge
  | _ => exact h.book

/- An update is answered alike by both desks. -/
theorem process
    (hDetached : hear.Detached)
    (h : Twin capacity ttl since d d')
    {u : Update}
    (hRoom : d.displaced hear (.update u) = 0)
    (hRoom' : d'.displaced hear (.update u) = 0)
    (hLater :
      d.tracker.now ≤ (d.process hear u).1.tracker.now)
    (hSoon :
      (d.process hear u).1.tracker.now < since + ttl) :
    Twin capacity ttl since (d.process hear u).1
      (d'.process hear u).1 := by
  have hQuiet := hDetached.quiet
  have hSame := h.find_eq u.orderId
  rcases h.around.process hDetached h.policy_eq hSame with
    ⟨hAlike, hAround⟩
  have hLooked := (h.book.find u.orderId).1
  refine
    { policy_eq := ?_
      around := hAround
      book := ?_ }
  · exact
      (policy_perform hQuiet d' (.update u)).trans
        (h.policy_eq.trans
          (policy_perform hQuiet d (.update u)).symm)
  · cases hFound :
        (d.tracker.book.find d.tracker.now u.orderId).2 with
    | none =>
        have hCore := (process_unknown hear hFound).1
        have hCore' :=
          (process_unknown hear (hSame.trans hFound)).1
        rw [Tracker.book_of_core hCore,
          Tracker.book_of_core hCore', h.now_eq]
        exact hLooked.later hLater hSoon
    | some o =>
        have hFound' := hSame.trans hFound
        have hCore := (process_known hQuiet hFound).2
        have hCore' := (process_known hQuiet hFound').2
        have hHeard := h.around.heard hDetached hAlike
        have hNow' :
            (d'.heard hear u).tracker.now =
              (d.heard hear u).tracker.now :=
          congrArg Time.Clock.elapsed hHeard.clock_eq
        have hNow :
            (d.process hear u).1.tracker.now =
              (d.heard hear u).tracker.now :=
          Tracker.now_of_core hCore
        rw [displaced_update hQuiet hFound] at hRoom
        rw [displaced_update hQuiet hFound'] at hRoom'
        rw [hNow', h.around.clock_eq, h.policy_eq,
          h.now_eq] at hRoom'
        rw [Tracker.book_of_core hCore,
          Tracker.book_of_core hCore', hNow', h.around.clock_eq,
          h.policy_eq, h.now_eq]
        rw [hNow] at hLater hSoon ⊢
        generalize o.respond u d.tracker.clock.now
          d.tracker.policy = response at hRoom hRoom' ⊢
        have hWritten :=
          (hLooked.later hLater hSoon).write response.1
        cases hRetire : response.2.retire with
        | false => exact hWritten
        | true =>
            rw [hRetire, if_pos rfl] at hRoom hRoom'
            exact hWritten.stop hRoom hRoom'

/- An action other than an update is done with both desks. -/
theorem perform_other
    (h : Twin capacity ttl since d d')
    {a : Action}
    (hOther : ∀ u, a ≠ .update u)
    (hRoom : d.displaced hear a = 0)
    (hRoom' : d'.displaced hear a = 0)
    (hLater :
      d.tracker.now ≤ (d.perform hear a).1.tracker.now)
    (hSoon :
      (d.perform hear a).1.tracker.now < since + ttl) :
    Twin capacity ttl since (d.perform hear a).1
      (d'.perform hear a).1 := by
  have hCore := core_perform hear d hOther
  have hCore' := core_perform hear d' hOther
  have hClock : d'.clockAfter a = d.clockAfter a := by
    unfold clockAfter
    rw [h.around.clock_eq]
  have hBook := h.bookAfter hRoom hRoom' hOther
  have hOutside :=
    (outside_perform hear d hOther).symm.trans
      (h.around.toSameOutside.trans
        (outside_perform hear d' hOther))
  refine
    { policy_eq := ?_
      around := ⟨hOutside, ?_⟩
      book := ?_ }
  · rw [Tracker.policy_of_core hCore,
      Tracker.policy_of_core hCore', h.policy_eq]
  · rw [Tracker.clock_of_core hCore,
      Tracker.clock_of_core hCore', hClock]
  · rw [book_perform hear d hOther, book_perform hear d' hOther]
    exact hBook.later hLater hSoon

/- One action is done with both desks. -/
theorem perform
    (hDetached : hear.Detached)
    (h : Twin capacity ttl since d d')
    {a : Action}
    (hRoom : d.displaced hear a = 0)
    (hRoom' : d'.displaced hear a = 0)
    (hLater :
      d.tracker.now ≤ (d.perform hear a).1.tracker.now)
    (hSoon :
      (d.perform hear a).1.tracker.now < since + ttl) :
    Twin capacity ttl since (d.perform hear a).1
      (d'.perform hear a).1 := by
  cases a with
  | update u =>
      exact h.process hDetached hRoom hRoom' hLater hSoon
  | _ =>
      exact
        h.perform_other (by simp) hRoom hRoom' hLater hSoon

/- What looks an order up is answered alike. -/
theorem answer_eq
    (hDetached : hear.Detached)
    (h : Twin capacity ttl since d d')
    {a : Action}
    (hLooksUp : a.looksUp = true) :
    (d'.perform hear a).2 = (d.perform hear a).2 := by
  cases a with
  | update u =>
      have hAlike :=
        (h.around.process hDetached h.policy_eq
          (h.find_eq u.orderId)).1
      exact congrArg Answer.verdict hAlike
  | fetch id => exact congrArg Answer.order (h.find_eq id)
  | _ => contradiction

/- Both desks do the same actions. -/
theorem run
    (hDetached : hear.Detached)
    (h : Twin capacity ttl since d d')
    {as : List Action}
    (hRoom : Roomy hear d as)
    (hRoom' : Roomy hear d' as)
    (hSteady : Steady hear d as)
    (hSoon : (d.run hear as).1.tracker.now < since + ttl) :
    Twin capacity ttl since (d.run hear as).1
      (d'.run hear as).1 := by
  induction as generalizing d d' with
  | nil => exact h
  | cons a as ih =>
      rcases hRoom with ⟨hFirst, hRoom⟩
      rcases hRoom' with ⟨hFirst', hRoom'⟩
      rcases hSteady with ⟨hLater, hSteady⟩
      have hEarlier :
          (d.perform hear a).1.tracker.now < since + ttl :=
        (now_le_run hSteady).trans_lt hSoon
      have hNext :=
        h.perform hDetached hFirst hFirst' hLater hEarlier
      exact ih hNext hRoom hRoom' hSteady hSoon

/- An order is stopped on one of two desks that are the same. -/
theorem of_stop
    (hear : Hearing L μ)
    {id : OrderId}
    (hMade : d.tracker.book.Made capacity ttl)
    (hTtl : 0 < ttl)
    (hActive : d.tracker.book.isActive id = true)
    (hRoom : d.displaced hear (.stop id) = 0) :
    Twin capacity ttl d.tracker.now d
      (d.perform hear (.stop id)).1 := by
  have hCore := (d.tracker.core_stop id).1
  have hBook :
      (d.perform hear (.stop id)).1.tracker.book =
        (d.tracker.book.stop d.tracker.now id).1 :=
    Tracker.book_of_core hCore
  rcases (Book.isActive_iff _ id).mp hActive with ⟨o, hActive⟩
  refine
    { policy_eq := Tracker.policy_of_core hCore
      around := ⟨⟨rfl, rfl⟩, Tracker.clock_of_core hCore⟩
      book := ?_ }
  rw [hBook]
  exact Book.Twin.of_stop hMade hTtl hActive hRoom

end Twin

/-
  An order may be stopped at any time that it is active.  As
  long as less time has passed since then than a retired order
  lives, all updates and all look-ups are answered as if it
  had not been stopped, whatever has been done in between, if
  no order has been pushed out of the cache.
-/
theorem retirement_transparent
    (hDetached : hear.Detached)
    (policy : TerminalPolicy)
    (capacity ttl : Nat)
    (clock : Time.Clock)
    (sink : Sink L)
    (memory : μ)
    (before after : List Action)
    (id : OrderId) :
    let d₀ : Desk L μ :=
      opening policy capacity ttl clock sink memory
    let d := (d₀.run hear before).1
    d.tracker.book.isActive id = true →
    Steady hear d after →
    (d.run hear after).1.tracker.now < d.tracker.now + ttl →
    Roomy hear d after →
    Roomy hear d (.stop id :: after) →
    ∀ a, a.looksUp = true →
      ((d₀.run hear (before ++ .stop id :: after)).1.perform
          hear a).2 =
        ((d₀.run hear (before ++ after)).1.perform hear a).2 := by
  intro d₀ d hActive hSteady hSoon hRoom hRoom' a hLooksUp
  have hMade : d.tracker.book.Made capacity ttl :=
    made_run hDetached.quiet policy capacity ttl clock sink
      memory before
  have hTtl : 0 < ttl := by
    have hLater := now_le_run hSteady
    omega
  have hStopped :=
    Twin.of_stop hear hMade hTtl hActive hRoom'.1
  have hLast :=
    hStopped.run hDetached hRoom hRoom'.2 hSteady hSoon
  rw [run_append, run_append]
  exact hLast.answer_eq hDetached hLooksUp

/-
  An order is stopped, filled as a retired one, and gets a
  late fill just before it expires.
-/
theorem retirement_transparent_filled :
    let before := [Action.start (.ofRequest Order.sampleRequest)]
    let after :=
      [Action.update (.fill Order.sampleFill), .advance 9]
    let late := Action.update (.fill halfFill)
    (smallDesk.run Hearing.idle
        before).1.tracker.book.isActive "a" = true ∧
      Steady Hearing.idle (smallDesk.run Hearing.idle before).1
        after ∧
      Roomy Hearing.idle (smallDesk.run Hearing.idle before).1
        after ∧
      Roomy Hearing.idle (smallDesk.run Hearing.idle before).1
        (.stop "a" :: after) ∧
      ((smallDesk.run Hearing.idle
        (before ++ after)).1.perform Hearing.idle
          late).2.events.length = 1 ∧
      ((smallDesk.run Hearing.idle
          (before ++ .stop "a" :: after)).1.perform
            Hearing.idle late).2 =
        ((smallDesk.run Hearing.idle
          (before ++ after)).1.perform Hearing.idle late).2 := by
  intro before after late
  have hActive :
      (smallDesk.run Hearing.idle
        before).1.tracker.book.isActive "a" = true := by
    decide +kernel
  have hSteady :
      Steady Hearing.idle (smallDesk.run Hearing.idle before).1
        after := by
    refine ⟨?_, ?_, trivial⟩ <;> decide +kernel
  have hRoom :
      Roomy Hearing.idle (smallDesk.run Hearing.idle before).1
        after := by
    refine ⟨?_, ?_, trivial⟩ <;> decide +kernel
  have hRoom' :
      Roomy Hearing.idle (smallDesk.run Hearing.idle before).1
        (.stop "a" :: after) := by
    refine ⟨?_, ?_, ?_, trivial⟩ <;> decide +kernel
  have hAlike :=
    retirement_transparent Hearing.aloof_idle.detached .once 1
      10 default .silent () before after "a" hActive hSteady
      (by decide +kernel) hRoom hRoom' late rfl
  exact
    ⟨hActive, hSteady, hRoom, hRoom', by decide +kernel, hAlike⟩

end Desk

end OrderWatch
