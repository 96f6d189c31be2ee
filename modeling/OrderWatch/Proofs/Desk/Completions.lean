import OrderWatch.Proofs.Desk.Fills
import OrderWatch.Proofs.Order.Completing

/-
  The latest completion of a filled order.

  A reader keeps, for every name, the latest completion that
  has been published since the name was started.  Under the
  policy `replay` this is enough to know the totals of every
  filled order: an update that changes them tells them again,
  one that is not applied does not change them, and letting go
  of records changes none.

  Main declarations:
    * `completionSince`
    * `Order.KnownFrom`
    * `Order.Completes.known`
    * `Desk.known_perform`, `Desk.known_run`
    * `Desk.latest_completion_current`
-/

namespace OrderWatch

------------------------------------------------------------
-- Completions of a name
------------------------------------------------------------

/- The completions of a name among those that are reported. -/
def completionsOf
    (id : OrderId)
    (events : List Event) : List Completion :=
  (completionsIn events).filter fun c => c.orderId = id

/-
  What a reader keeps of a name after an action, from what
  has been kept before it and the answer.
-/
def keepCompletion
    (id : OrderId)
    (kept? : Option Completion)
    (step : Action × Answer) : Option Completion :=
  if step.1.starts id then
    none
  else
    (completionsOf id step.2.events).getLast?.or kept?

/-
  The latest completion that has been published for a name
  since the last start of an order of that name.
-/
def completionSince
    (id : OrderId)
    (history : List (Action × Answer)) : Option Completion :=
  history.foldl (keepCompletion id) none

theorem keepCompletion_of_none
    {id : OrderId}
    {a : Action}
    {answer : Answer}
    (hStarts : a.starts id = false)
    (hNone : completionsOf id answer.events = [])
    (kept? : Option Completion) :
    keepCompletion id kept? (a, answer) = kept? := by
  unfold keepCompletion
  rw [if_neg (by simp [hStarts]), hNone]
  rfl

theorem completionsOf_of_none
    (id : OrderId)
    {events : List Event}
    (hNone : completionsIn events = []) :
    completionsOf id events = [] := by
  unfold completionsOf
  rw [hNone]
  rfl

theorem completionsOf_singleton
    (id : OrderId)
    {events : List Event}
    {c : Completion}
    (hOnly : completionsIn events = [c]) :
    completionsOf id events =
      if c.orderId = id then [c] else [] := by
  unfold completionsOf
  rw [hOnly, List.filter_singleton]
  by_cases hSame : c.orderId = id <;> simp [hSame]

namespace Order

variable {o : Order}

/- If a record is filled, then what is kept gives its totals. -/
def KnownFrom
    (kept? : Option Completion)
    (o : Order) : Prop :=
  o.status = .filled → ∃ c, kept? = some c ∧ c.Shows o

namespace Completes

variable {r : Order × Tracker.Receipt}

/- Completions of a record are told under its own name. -/
theorem other
    (h : o.Completes r)
    {id : OrderId}
    (hOther : id ≠ o.id) :
    completionsOf id r.2.verdict.events = [] := by
  cases h with
  | told c hLast hOwn hShows =>
      rw [completionsOf_singleton id hLast, if_neg]
      rw [hOwn]
      exact Ne.symm hOther
  | unfilled hNone => exact completionsOf_of_none id hNone
  | still hNone => exact completionsOf_of_none id hNone

/- What a reader knows of a filled record stays true. -/
theorem known
    (h : o.Completes r)
    {kept? : Option Completion}
    (hKnown : o.KnownFrom kept?) :
    r.1.KnownFrom
      ((completionsOf o.id r.2.verdict.events).getLast?.or
        kept?) := by
  intro hFilled
  cases h with
  | told c hLast hOwn hShows =>
      rw [completionsOf_singleton o.id hLast, if_pos hOwn]
      exact ⟨c, rfl, hShows⟩
  | unfilled hNone hStatus => exact absurd hFilled hStatus
  | still hNone hStatus hShown =>
      rw [hStatus] at hFilled
      rcases hKnown hFilled with ⟨c, hKept, hShows⟩
      rw [completionsOf_of_none o.id hNone]
      exact ⟨c, hKept, hShown c hShows⟩

end Completes

end Order

namespace Desk

variable {L μ : Type} {hear : Hearing L μ} {d : Desk L μ}
variable {kept : OrderId → Option Completion}

------------------------------------------------------------
-- Actions
------------------------------------------------------------

/- An update tells the totals that it changes. -/
theorem known_process
    (hQuiet : hear.Quiet)
    (hAll : d.tracker.book.All Order.Own)
    (hReplay : d.tracker.policy = .replay)
    (hKnown :
      d.tracker.book.Latest fun id o => o.KnownFrom (kept id))
    {u : Update}
    (hWhole :
      (Answer.verdict (d.process hear u).2).isBroken = false) :
    (d.process hear u).1.tracker.book.Latest fun id o =>
      o.KnownFrom
        ((completionsOf id
          (d.process hear u).2.events).getLast?.or
            (kept id)) := by
  cases hFound :
      (d.tracker.book.find d.tracker.now u.orderId).2 with
  | none =>
      rw [(process_unknown hear hFound).2]
      exact latest_unknown hear hAll.whole hKnown hFound
  | some o =>
      have hOwn : o.id = u.orderId := hAll.of_find hFound
      have hVerdict := (process_known hQuiet hFound).1
      rw [hVerdict] at hWhole ⊢
      rw [hReplay] at hWhole ⊢
      have hCompletes :=
        Order.completes_respond (Answer.ne_broken hWhole)
      refine
        latest_process hQuiet hAll.whole hKnown hOwn hFound ?_ ?_
      · have hBefore := hKnown.of_find hAll.whole hFound
        rw [hReplay]
        rw [← hOwn] at hBefore ⊢
        exact hCompletes.known hBefore
      · intro id p hOther hBefore
        rw [hCompletes.other (hOwn ▸ hOther)]
        exact hBefore

/- One action leaves the totals of filled records known. -/
theorem known_perform
    (hQuiet : hear.Quiet)
    (hAll : d.tracker.book.All Order.Own)
    (hReplay : d.tracker.policy = .replay)
    (hKnown :
      d.tracker.book.Latest fun id o => o.KnownFrom (kept id))
    {a : Action}
    (hFresh : ∀ o, a = .start o → o.status ≠ .filled)
    (hWhole : (d.perform hear a).2.isBroken = false) :
    (d.perform hear a).1.tracker.book.Latest fun id o =>
      o.KnownFrom
        (keepCompletion id (kept id)
          (a, (d.perform hear a).2)) := by
  by_cases hLetsGo : a.LetsGo
  · have hFades := (fades_perform hear hAll.whole hLetsGo).1
    refine (hKnown.fades hFades).mono ?_
    intro id o hBefore
    have hStarts := Action.starts_of_letsGo hLetsGo id
    have hSilent := events_of_letsGo hear d hLetsGo
    rw [keepCompletion_of_none hStarts (by rw [hSilent]; rfl)]
    exact hBefore
  · cases a with
    | start o =>
        refine hKnown.start ?_ ?_
        · intro hFilled
          exact absurd hFilled (hFresh o rfl)
        · intro id p hOther hBefore
          have hStarts : (Action.start o).starts id = false :=
            decide_eq_false (Ne.symm hOther)
          rw [keepCompletion_of_none hStarts rfl]
          exact hBefore
    | update u =>
        exact known_process hQuiet hAll hReplay hKnown hWhole
    | _ => exact absurd trivial hLetsGo

------------------------------------------------------------
-- Runs
------------------------------------------------------------

/- A whole run leaves the totals of filled records known. -/
theorem known_run
    (hQuiet : hear.Quiet)
    (hAll : d.tracker.book.All Order.Own)
    (hReplay : d.tracker.policy = .replay)
    (hKnown :
      d.tracker.book.Latest fun id o => o.KnownFrom (kept id))
    {as : List Action}
    (hRequested :
      ∀ o, .start o ∈ as → ∃ r, o = Order.ofRequest r)
    (hWhole :
      ∀ answer ∈ (d.run hear as).2, answer.isBroken = false) :
    (d.run hear as).1.tracker.book.Latest fun id o =>
      o.KnownFrom
        ((as.zip (d.run hear as).2).foldl (keepCompletion id)
          (kept id)) := by
  -- What is kept changes along with the desk.
  induction as generalizing d kept with
  | nil => exact hKnown
  | cons a as ih =>
      have hFirst :=
        known_perform hQuiet hAll hReplay hKnown
          (fun o hStart => by
            rcases hRequested o (by simp [hStart]) with ⟨r, rfl⟩
            simp [Order.ofRequest])
          (hWhole _ List.mem_cons_self)
      have hPolicy :=
        (policy_perform hQuiet d a).trans hReplay
      exact
        ih (own_perform hQuiet hAll a) hPolicy hFirst
          (fun o hMem => hRequested o (by simp [hMem]))
          (fun answer hMem =>
            hWhole answer (List.mem_cons_of_mem _ hMem))

/-
  In a run of requested orders under `replay` in which no
  update is broken off, the latest completion that has been
  published for a name since its last start gives the totals
  and the fee of the record that is found, if this record is
  filled.  So who keeps only the latest completion is never
  behind, whatever fills come late.
-/
theorem latest_completion_current
    (hQuiet : hear.Quiet)
    (capacity ttl : Nat)
    (clock : Time.Clock)
    (sink : Sink L)
    (memory : μ)
    (as : List Action)
    (hRequested :
      ∀ o, .start o ∈ as → ∃ r, o = Order.ofRequest r) :
    let d₀ : Desk L μ :=
      opening .replay capacity ttl clock sink memory
    (∀ answer ∈ (d₀.run hear as).2, answer.isBroken = false) →
    ∀ id o,
      ((d₀.run hear as).1.tracker.fetch id).2 = some o →
      o.status = .filled →
        ∃ c,
          completionSince id (as.zip (d₀.run hear as).2) =
            some c ∧
          c.Shows o := by
  intro d₀ hWhole id o hFound
  have hEmpty : d₀.tracker.book.All Order.Own :=
    Book.All.empty Order.Own capacity ttl
  have hAll := own_run hQuiet hEmpty as
  have hKnown :=
    known_run hQuiet hEmpty rfl
      (Book.Latest.empty (fun _ o => o.KnownFrom none)
        capacity ttl)
      hRequested hWhole
  exact hKnown.of_find hAll.whole hFound

/-
  A retired order is filled a second time: the completion that
  is kept gives the total of both fills.
-/
theorem latest_completion_current_filledTwice :
    (∀ answer ∈ (replayDesk.run Hearing.idle filledTwice).2,
        answer.isBroken = false) ∧
      ∃ o,
        ((replayDesk.run Hearing.idle
          filledTwice).1.tracker.fetch "a").2 = some o ∧
        o.status = .filled ∧
        ∃ c,
          completionSince "a"
              (filledTwice.zip
                (replayDesk.run Hearing.idle filledTwice).2) =
            some c ∧
          c.Shows o := by
  have hWhole :
      ∀ answer ∈ (replayDesk.run Hearing.idle filledTwice).2,
        answer.isBroken = false := by
    decide +kernel
  have hFilled :
      ((replayDesk.run Hearing.idle
          filledTwice).1.tracker.fetch "a").2.map Order.status =
        some .filled := by
    decide +kernel
  rcases Option.map_eq_some_iff.mp hFilled with
    ⟨o, hFound, hStatus⟩
  have hIdle : (Hearing.idle : Hearing Unit Unit).Still :=
    Hearing.still_idle
  have hKnown :=
    latest_completion_current hIdle.quiet 1 10 default .silent
      () filledTwice requested_filledTwice hWhole "a" o hFound
      hStatus
  exact ⟨hWhole, o, hFound, hStatus, hKnown⟩

end Desk

end OrderWatch
