import OrderWatch.Proofs.Desk.Expiry

/-
  Updates that are delivered more than once.

  Copies of updates that were processed before are put in
  anywhere later in the life of their order.  The run with
  the copies has lost nothing but expired orders against the
  run without them: every copy finds a record that has seen
  the update, or none.

  Main declarations:
    * `Book.Seen`
    * `Desk.seen_process`, `Desk.seen_perform`
    * `Delivery`, `originals`, `deliveries`
    * `Desk.Processed`, `Desk.Redelivers`
    * `Desk.forgets_deliveries`
    * `Desk.copies_absorbed`
-/

namespace OrderWatch

------------------------------------------------------------
-- Seen updates
------------------------------------------------------------

namespace Book

variable {b d : Book} {u : Update}

/- An update that the latest record of its name has seen. -/
def Seen (b : Book) (u : Update) : Prop :=
  ∀ o, b.latest? u.orderId = some o → o.Seen u

theorem Fades.seen
    (hFades : b.Fades d)
    (hSeen : b.Seen u) :
    d.Seen u := by
  intro o hLatest
  rcases hFades.latest u.orderId with hNone | hSame
  · rw [hNone] at hLatest
    contradiction
  · rw [hSame] at hLatest
    exact hSeen o hLatest

end Book

variable {L μ : Type}

namespace Desk

variable {hear : Hearing L μ} {d d' : Desk L μ} {u : Update}

/- An update that has found a record is seen. -/
theorem seen_process
    (hQuiet : hear.Quiet)
    (hOwn : d.tracker.book.All Order.Own)
    {o : Order}
    (hFound :
      (d.tracker.book.find d.tracker.now u.orderId).2 =
        some o) :
    (d.process hear u).1.tracker.book.Seen u := by
  intro p hLatest
  have hId : o.id = u.orderId := hOwn.of_find hFound
  rcases latest?_process hQuiet hOwn.whole hId hFound
      u.orderId with hNone | hSame
  · rw [hNone] at hLatest
    contradiction
  · rw [if_pos rfl, hLatest] at hSame
    rw [Option.some.inj hSame]
    exact Order.seen_respond hId.symm _ _

/- Other updates do not take this away. -/
theorem seen_process_other
    (hQuiet : hear.Quiet)
    (hOwn : d.tracker.book.All Order.Own)
    (hSeen : d.tracker.book.Seen u)
    (v : Update) :
    (d.process hear v).1.tracker.book.Seen u := by
  have hWhole := hOwn.whole
  cases hFound :
      (d.tracker.book.find d.tracker.now v.orderId).2 with
  | none =>
      have hCore := (process_unknown hear hFound).1
      rw [Tracker.book_of_core hCore]
      exact
        (Book.fades_find hWhole d.tracker.now v.orderId).seen
          hSeen
  | some o =>
      intro p hLatest
      have hId : o.id = v.orderId := hOwn.of_find hFound
      rcases latest?_process hQuiet hWhole hId hFound
          u.orderId with hNone | hSame
      · rw [hNone] at hLatest
        contradiction
      · rw [hLatest] at hSame
        by_cases hName : u.orderId = v.orderId
        · rw [if_pos hName] at hSame
          have hBefore := (Book.latest?_of_find hWhole hFound).1
          rw [← hName] at hBefore
          rw [Option.some.inj hSame]
          exact (hSeen o hBefore).respond v _ _
        · rw [if_neg hName] at hSame
          exact hSeen p hSame.symm

/- Only a start of its name makes an update new again. -/
theorem seen_perform
    (hQuiet : hear.Quiet)
    (hOwn : d.tracker.book.All Order.Own)
    (hSeen : d.tracker.book.Seen u)
    {a : Action}
    (hOther : ∀ o, a = .start o → o.id ≠ u.orderId) :
    (d.perform hear a).1.tracker.book.Seen u := by
  by_cases hLetsGo : a.LetsGo
  · exact (fades_perform hear hOwn.whole hLetsGo).1.seen hSeen
  · cases a with
    | start o =>
        intro p hLatest
        have hStarted :=
          Book.latest?_start d.tracker.book o u.orderId
        rw [if_neg (hOther o rfl).symm] at hStarted
        exact hSeen p (hStarted.symm.trans hLatest)
    | update v => exact seen_process_other hQuiet hOwn hSeen v
    | _ => exact absurd trivial hLetsGo

theorem seen_run
    (hQuiet : hear.Quiet)
    (hOwn : d.tracker.book.All Order.Own)
    (hSeen : d.tracker.book.Seen u)
    {as : List Action}
    (hOther : ∀ o, .start o ∈ as → o.id ≠ u.orderId) :
    (d.run hear as).1.tracker.book.Seen u := by
  induction as generalizing d with
  | nil => exact hSeen
  | cons a as ih =>
      have hOwn' := own_perform hQuiet hOwn a
      have hNext :=
        seen_perform hQuiet hOwn hSeen (a := a)
          (fun o hStart => hOther o (by simp [hStart]))
      exact
        ih hOwn' hNext (fun o hMem => hOther o (by simp [hMem]))

------------------------------------------------------------
-- Processed updates
------------------------------------------------------------

/-
  An update that came in during a run and found its order,
  which has not been started again since then.
-/
def Processed
    (hear : Hearing L μ)
    (d : Desk L μ)
    (as : List Action)
    (u : Update) : Prop :=
  ∃ before after,
    as = before ++ .update u :: after ∧
    ((d.run hear before).1.process hear u).2 ≠
      .ignored (.unknownOrder u.orderId) ∧
    ∀ o, .start o ∈ after → o.id ≠ u.orderId

/- What has been processed is seen. -/
theorem seen_of_processed
    (hQuiet : hear.Quiet)
    (hOwn : d.tracker.book.All Order.Own)
    {as : List Action}
    (hProcessed : Processed hear d as u) :
    (d.run hear as).1.tracker.book.Seen u := by
  rcases hProcessed with
    ⟨before, after, rfl, hKnown, hOther⟩
  have hOwn₁ := own_run hQuiet hOwn before
  have hOwn₂ := own_perform hQuiet hOwn₁ (.update u)
  have hSeen :
      ((d.run hear before).1.process hear
        u).1.tracker.book.Seen u := by
    cases hFound :
        ((d.run hear before).1.tracker.book.find
          (d.run hear before).1.tracker.now u.orderId).2 with
    | none =>
        exact absurd (process_unknown hear hFound).2 hKnown
    | some o => exact seen_process hQuiet hOwn₁ hFound
  rw [run_append]
  exact seen_run hQuiet hOwn₂ hSeen hOther

/- An order that was found once is found until it lapses. -/
theorem lapsed_of_processed
    (hAloof : hear.Aloof)
    (h : d.Forgets d)
    (hOwn : d.tracker.book.All Order.Own)
    {as : List Action}
    (hRoom : Roomy hear d as)
    (hSteady : Steady hear d as)
    (hProcessed : Processed hear d as u)
    (hNone :
      ((d.run hear as).1.tracker.book.find
        (d.run hear as).1.tracker.now u.orderId).2 = none) :
    Lapsed hear d as u.orderId := by
  have hQuiet := hAloof.still.quiet
  by_cases hLatest :
      (d.run hear as).1.tracker.book.latest? u.orderId = none
  · rcases hProcessed with ⟨before, after, rfl, hKnown, _⟩
    rcases along_append.mp hRoom with ⟨hRoom₁, hRoom₂⟩
    rcases along_append.mp hSteady with ⟨hSteady₁, hSteady₂⟩
    have h₁ := h.run hAloof hRoom₁ hSteady₁
    have hOwn₁ := own_run hQuiet hOwn before
    have h₂ := (h₁.perform hAloof hRoom₂.1 hSteady₂.1).1
    have hOwn₂ := own_perform hQuiet hOwn₁ (.update u)
    have hKept :
        ((d.run hear before).1.perform hear
          (.update u)).1.tracker.book.latest? u.orderId ≠
            none := by
      cases hFound :
          ((d.run hear before).1.tracker.book.find
            (d.run hear before).1.tracker.now
            u.orderId).2 with
      | none =>
          exact absurd (process_unknown hear hFound).2 hKnown
      | some o =>
          have hAfter :=
            latest?_process_still hAloof.still h₁
              (hOwn₁.of_find hFound) hFound hRoom₂.1 u.orderId
          rw [if_pos rfl] at hAfter
          intro hGone
          exact absurd (hAfter.symm.trans hGone) (by simp)
    rw [run_append] at hLatest
    have hLapsed :=
      lapsed_of_run hAloof h₂ hOwn₂ hRoom₂.2 hSteady₂.2 hKept
        hLatest
    exact
      Lapsed.prepend before
        (hLapsed.prepend [.update u])
  · exact
      ⟨as, [], (List.append_nil as).symm,
        Book.expired_of_unfound hLatest hNone⟩

end Desk

------------------------------------------------------------
-- Deliveries
------------------------------------------------------------

/- An action, or a further copy of an update. -/
inductive Delivery where
  | original (a : Action)
  | copy (u : Update)

namespace Delivery

def action : Delivery → Action
  | .original a => a
  | .copy u => .update u

def original? : Delivery → Option Action
  | .original a => some a
  | .copy _ => none

end Delivery

/- What is done without the copies. -/
def originals (ds : List Delivery) : List Action :=
  ds.filterMap Delivery.original?

/- What is done with the copies. -/
def deliveries (ds : List Delivery) : List Action :=
  ds.map Delivery.action

namespace Desk

variable {hear : Hearing L μ} {d d' : Desk L μ}

/- Every copy is one of an update processed before. -/
def Redelivers
    (hear : Hearing L μ)
    (d : Desk L μ)
    (ds : List Delivery) : Prop :=
  ∀ before u after, ds = before ++ .copy u :: after →
    Processed hear d (originals before) u

theorem redelivers_of_append
    {ds es : List Delivery}
    (hCopies : Redelivers hear d (ds ++ es)) :
    Redelivers hear d ds := by
  rintro before u after rfl
  exact hCopies before u (after ++ es) (by simp)

theorem redelivers_nil
    (hear : Hearing L μ)
    (d : Desk L μ) :
    Redelivers hear d [] := by
  intro before u after hSplit
  simp at hSplit

/- One more delivery, which may be a copy. -/
theorem redelivers_append
    {ds : List Delivery}
    (hCopies : Redelivers hear d ds)
    {δ : Delivery}
    (hLast :
      ∀ u, δ = .copy u → Processed hear d (originals ds) u) :
    Redelivers hear d (ds ++ [δ]) := by
  intro before u after hSplit
  rcases List.eq_nil_or_concat after with
    rfl | ⟨after, ε, rfl⟩
  · rcases List.append_inj' hSplit rfl with ⟨rfl, hSame⟩
    exact hLast u (List.singleton_inj.mp hSame)
  · have hShift :
        before ++ .copy u :: after.concat ε =
          (before ++ .copy u :: after) ++ [ε] := by
      simp
    rw [hShift] at hSplit
    exact
      hCopies before u after (List.append_inj' hSplit rfl).1

/- Originals may follow at will. -/
theorem redelivers_originals
    {ds : List Delivery}
    (hCopies : Redelivers hear d ds)
    (as : List Action) :
    Redelivers hear d (ds ++ as.map .original) := by
  induction as using List.reverseRecOn with
  | nil => simpa using hCopies
  | append_singleton as a ih =>
      rw [List.map_append, ← List.append_assoc]
      exact redelivers_append ih (by simp)

/- A copy that comes after some deliveries. -/
theorem absorbs_copy
    (hAloof : hear.Aloof)
    (hOwn : d.tracker.book.All Order.Own)
    {as : List Action}
    {u : Update}
    (hProcessed : Processed hear d as u)
    (h : (d.run hear as).1.Forgets d') :
    (d.run hear as).1.Forgets (d'.process hear u).1 ∧
      (d.run hear as).1.Absorbs u (d'.process hear u).2 := by
  have hQuiet := hAloof.still.quiet
  have hSeen := seen_of_processed hQuiet hOwn hProcessed
  have hWhole := (own_run hQuiet hOwn as).whole
  apply h.copy hAloof.still
  intro o hFound
  exact hSeen o (Book.latest?_of_find hWhole hFound).1

/-
  The run with the copies has lost nothing but expired orders
  against the run without them.
-/
theorem forgets_deliveries
    (hAloof : hear.Aloof)
    (h : d.Forgets d)
    (hOwn : d.tracker.book.All Order.Own)
    {ds : List Delivery}
    (hCopies : Redelivers hear d ds)
    (hRoom : Roomy hear d (originals ds))
    (hSteady : Steady hear d (originals ds)) :
    (d.run hear (originals ds)).1.Forgets
      (d.run hear (deliveries ds)).1 := by
  induction ds using List.reverseRecOn with
  | nil => exact h
  | append_singleton ds δ ih =>
      have hBefore := redelivers_of_append hCopies
      unfold originals deliveries at *
      rw [List.filterMap_append] at hRoom hSteady ⊢
      rw [List.map_append, run_append]
      rcases along_append.mp hRoom with ⟨hRoom₁, hRoom₂⟩
      rcases along_append.mp hSteady with ⟨hSteady₁, hSteady₂⟩
      have hNow := ih hBefore hRoom₁ hSteady₁
      rw [run_append]
      cases δ with
      | original a =>
          exact (hNow.perform hAloof hRoom₂.1 hSteady₂.1).1
      | copy u =>
          have hProcessed := hCopies ds u [] rfl
          exact (absorbs_copy hAloof hOwn hProcessed hNow).1

theorem Forgets.looksLike
    (h : d.Forgets d') :
    d.LooksLike d' :=
  h.related.looksLike Cache.simulation_forgets

theorem forgets_opening
    (policy : TerminalPolicy)
    (capacity ttl : Nat)
    (clock : Time.Clock)
    (sink : Sink L)
    (memory : μ) :
    (opening policy capacity ttl clock sink memory).Forgets
      (opening policy capacity ttl clock sink memory) where
  policy_eq := rfl
  clock_eq := rfl
  book := Book.Forgets.empty capacity ttl clock.elapsed
  outside := SameOutside.refl _

/-
  Copies of processed updates, put in anywhere before their
  order is started again, have no effect.  At every point of
  the run with the copies the desk looks like the one of the
  run without them.  A copy publishes nothing; it is answered
  as stale if the run without the copies finds the order, and
  else as unknown, which means that the order has lapsed.
  Anything else is answered alike, except that a purge may
  count fewer orders.
-/
theorem copies_absorbed
    (hAloof : hear.Aloof)
    (policy : TerminalPolicy)
    (capacity ttl : Nat)
    (clock : Time.Clock)
    (sink : Sink L)
    (memory : μ)
    (ds : List Delivery) :
    let d₀ : Desk L μ :=
      opening policy capacity ttl clock sink memory
    Redelivers hear d₀ ds →
    Roomy hear d₀ (originals ds) →
    Steady hear d₀ (originals ds) →
    ∀ before after, ds = before ++ after →
      let d := (d₀.run hear (originals before)).1
      let d' := (d₀.run hear (deliveries before)).1
      d.LooksLike d' ∧
      (∀ a rest, after = .original a :: rest →
        (d.perform hear a).2.Matches (d'.perform hear a).2) ∧
      ∀ u rest, after = .copy u :: rest →
        let v := (d'.process hear u).2
        v.events = [] ∧ d.Absorbs u v ∧
        ((d.tracker.fetch u.orderId).2 = none →
          Lapsed hear d₀ (originals before) u.orderId) := by
  rintro d₀ hCopies hRoom hSteady before after rfl d d'
  have h : d₀.Forgets d₀ :=
    forgets_opening policy capacity ttl clock sink memory
  have hOwn : d₀.tracker.book.All Order.Own :=
    Book.All.empty Order.Own capacity ttl
  have hSplit :
      originals (before ++ after) =
        originals before ++ originals after :=
    List.filterMap_append
  rw [hSplit] at hRoom hSteady
  rcases along_append.mp hRoom with ⟨hRoom₁, hRoom₂⟩
  rcases along_append.mp hSteady with ⟨hSteady₁, hSteady₂⟩
  have hNow : d.Forgets d' :=
    forgets_deliveries hAloof h hOwn
      (redelivers_of_append hCopies) hRoom₁ hSteady₁
  refine ⟨hNow.looksLike, ?_, ?_⟩
  · rintro a rest rfl
    exact (hNow.perform hAloof hRoom₂.1 hSteady₂.1).2
  · rintro u rest rfl v
    have hProcessed := hCopies before u rest rfl
    have hAbsorbs : d.Absorbs u v :=
      (absorbs_copy hAloof hOwn hProcessed hNow).2
    refine ⟨hAbsorbs.events_eq, hAbsorbs, ?_⟩
    intro hNone
    exact
      lapsed_of_processed hAloof h hOwn hRoom₁ hSteady₁
        hProcessed hNone

------------------------------------------------------------
-- An order cancelled twice
------------------------------------------------------------

/- A desk that keeps one retired order for an instant. -/
def brief : Desk Unit Unit :=
  opening .once 1 1 default .silent ()

/- The cancellation of an order. -/
def cancellation : Update :=
  .status
    { (default : StatusUpdate) with
      orderId := "a", status := .cancelled }

/- The cancellation comes again after the order has expired. -/
def cancelledTwice : List Delivery :=
  [.original (.start
      (.ofRequest { (default : OrderRequest) with id := "a" })),
    .original (.update cancellation),
    .original (.advance 1),
    .copy cancellation]

theorem redelivers_cancelledTwice
    (as : List Action) :
    Redelivers Hearing.idle brief
      (cancelledTwice ++ as.map .original) := by
  apply redelivers_originals
  have hStart :=
    redelivers_originals
      (redelivers_nil Hearing.idle brief)
      (originals cancelledTwice)
  apply redelivers_append hStart
  intro u hSame
  have hCopy : cancellation = u := Delivery.copy.inj hSame
  subst hCopy
  exact
    ⟨[_], [.advance 1], rfl, by decide +kernel, by simp⟩

/- The cancellation that comes again is absorbed. -/
theorem copies_absorbed_cancelledTwice :
    let told := originals cancelledTwice
    let d := (brief.run Hearing.idle told).1
    let d' :=
      (brief.run Hearing.idle (deliveries cancelledTwice)).1
    Roomy Hearing.idle brief (originals cancelledTwice) ∧
      Steady Hearing.idle brief (originals cancelledTwice) ∧
      d.LooksLike d' ∧
      Lapsed Hearing.idle brief told "a" := by
  have hCopies : Redelivers Hearing.idle brief cancelledTwice :=
    redelivers_cancelledTwice []
  have hRoom :
      Roomy Hearing.idle brief (originals cancelledTwice) := by
    refine ⟨?_, ?_, ?_, trivial⟩ <;> decide +kernel
  have hSteady :
      Steady Hearing.idle brief (originals cancelledTwice) := by
    refine ⟨?_, ?_, ?_, trivial⟩ <;> decide +kernel
  have hAbsorbed :=
    copies_absorbed Hearing.aloof_idle .once 1 1 default .silent
      () cancelledTwice hCopies hRoom hSteady
  refine ⟨hRoom, hSteady, ?_, ?_⟩
  · exact (hAbsorbed cancelledTwice [] rfl).1
  · have hCopy :=
      (hAbsorbed
        [.original (.start (.ofRequest
            { (default : OrderRequest) with id := "a" })),
          .original (.update cancellation),
          .original (.advance 1)]
        [.copy cancellation] rfl).2.2 cancellation [] rfl
    exact hCopy.2.2 (by decide +kernel)

/-
  A copy drops an order that has expired.  Then a purge does
  not count it, and if the clock goes back it does not come
  to life again.
-/
theorem copies_reclaim :
    (¬ ∀ ds,
        Redelivers Hearing.idle brief ds →
        Roomy Hearing.idle brief (originals ds) →
        Steady Hearing.idle brief (originals ds) →
        ∀ before a after, ds = before ++ .original a :: after →
          let d := (brief.run Hearing.idle (originals before)).1
          let d' :=
            (brief.run Hearing.idle (deliveries before)).1
          (d'.perform Hearing.idle a).2 =
            (d.perform Hearing.idle a).2) ∧
      ¬ ∀ ds,
        Redelivers Hearing.idle brief ds →
        Roomy Hearing.idle brief (originals ds) →
        ∀ before a after, a ≠ .purge →
          ds = before ++ .original a :: after →
          let d := (brief.run Hearing.idle (originals before)).1
          let d' :=
            (brief.run Hearing.idle (deliveries before)).1
          (d'.perform Hearing.idle a).2 =
            (d.perform Hearing.idle a).2 := by
  constructor
  · intro hSame
    have hCopies := redelivers_cancelledTwice [.purge]
    have hPurged :=
      hSame _ hCopies
        (by refine ⟨?_, ?_, ?_, ?_, trivial⟩ <;> decide +kernel)
        (by refine ⟨?_, ?_, ?_, ?_, trivial⟩ <;> decide +kernel)
        cancelledTwice .purge [] rfl
    have hCounts := Answer.purged.inj hPurged
    revert hCounts
    decide +kernel
  · intro hSame
    have hCopies :=
      redelivers_cancelledTwice
        [.advance (2 ^ 64 - 1), .fetchRetired "a"]
    have hFetched :=
      hSame _ hCopies
        (by
          refine ⟨?_, ?_, ?_, ?_, ?_, trivial⟩ <;>
            decide +kernel)
        (cancelledTwice ++ [.original (.advance (2 ^ 64 - 1))])
        (.fetchRetired "a") [] (by simp) rfl
    have hOrders := Answer.order.inj hFetched
    revert hOrders
    decide +kernel

end Desk

end OrderWatch
