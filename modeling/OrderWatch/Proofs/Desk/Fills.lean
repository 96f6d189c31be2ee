import OrderWatch.Proofs.Desk.Closing
import OrderWatch.Proofs.Desk.Latest
import OrderWatch.Proofs.Desk.Loss
import OrderWatch.Proofs.Order.Filling

/-
  The fills that are published for an order, and its total.

  The fills of a name are gathered from what a run publishes,
  and a start of the name begins anew.  As long as no base
  total loses a digit and no update is broken off, each action
  keeps their sum equal to the base total of the latest record
  of the name: a response adds to both the same amount, a
  start makes both zero, and letting go of a record changes
  neither.

  Main declarations:
    * `fillsSince`
    * `Book.Tallied`
    * `Desk.ExactFor`, `Desk.Lossless`
    * `Desk.tallied_perform`, `Desk.tallied_run`
    * `Desk.fills_add_up`
-/

namespace OrderWatch

------------------------------------------------------------
-- Fills of a name
------------------------------------------------------------

/- The fills of a name among those that are reported. -/
def fillsOf
    (id : OrderId)
    (events : List Event) : List Execution :=
  (fillsIn events).filter fun e => e.orderId = id

/- Whether an action starts an order of some name. -/
def Action.starts (id : OrderId) : Action → Bool
  | .start o => o.id = id
  | _ => false

theorem Action.starts_of_letsGo
    {a : Action}
    (hLetsGo : a.LetsGo)
    (id : OrderId) :
    a.starts id = false := by
  cases a with
  | start o => contradiction
  | _ => rfl

/- Whether an answer is that an update has been broken off. -/
def Answer.isBroken : Answer → Bool
  | .verdict (.broken _) => true
  | _ => false

theorem Answer.ne_broken
    {v : Verdict}
    (hWhole : (Answer.verdict v).isBroken = false)
    (why : Overflow) :
    v ≠ .broken why := by
  rintro rfl
  contradiction

/-
  The fills of a name after an action, from those before it
  and the answer.
-/
def gatherFills
    (id : OrderId)
    (fills : List Execution)
    (step : Action × Answer) : List Execution :=
  if step.1.starts id then
    []
  else
    fills ++ fillsOf id step.2.events

/-
  The fills that have been published for a name since the
  last start of an order of that name.
-/
def fillsSince
    (id : OrderId)
    (history : List (Action × Answer)) : List Execution :=
  history.foldl (gatherFills id) []

theorem tally_gatherFills
    {id : OrderId}
    (fills : List Execution)
    {a : Action}
    (hStarts : a.starts id = false)
    (answer : Answer) :
    tally (gatherFills id fills (a, answer)) =
      tally fills + tally (fillsOf id answer.events) := by
  unfold gatherFills
  rw [if_neg (by simp [hStarts]), tally_append]

theorem fillsOf_of_none
    (id : OrderId)
    {events : List Event}
    (hNone : fillsIn events = []) :
    fillsOf id events = [] := by
  unfold fillsOf
  rw [hNone]
  rfl

theorem tally_fillsOf_singleton
    (id : OrderId)
    {events : List Event}
    {e : Execution}
    (hFills : fillsIn events = [e]) :
    tally (fillsOf id events) =
      if id = e.orderId then e.amount.units else 0 := by
  unfold fillsOf
  rw [hFills, List.filter_singleton]
  by_cases hSame : id = e.orderId
  · simp [hSame, tally]
  · simp [hSame, Ne.symm hSame, tally]

/- A response raises the base total by what it tells. -/
theorem Order.Told.tally_eq
    {o : Order}
    {u : Update}
    {r : Order × Tracker.Receipt}
    (hTold : o.Told u r)
    (hOwn : o.id = u.orderId)
    (id : OrderId) :
    tally (fillsOf id r.2.verdict.events) =
      if id = u.orderId then
        r.1.executedBase.units - o.executedBase.units
      else
        0 := by
  cases hTold with
  | filled f events e hFill hVerdict hFills hReports hTotal =>
      have hId : e.orderId = u.orderId :=
        (hReports.orderId_eq.trans
          (o.apply_sameTerms u).id_eq).trans hOwn
      have hEvents : r.2.verdict.events = events := by
        rw [hVerdict]
        rfl
      rw [hEvents, tally_fillsOf_singleton id hFills, hId,
        hReports.amount_eq]
      split <;> omega
  | silent hOther hNone hTotal =>
      rw [fillsOf_of_none id hNone, hTotal, Int.sub_self,
        ite_self]
      rfl

namespace Book

variable {b : Book} {fills : OrderId → List Execution}

/-
  The fills of every name add up to the base total of its
  latest record, if there is one.
-/
def Tallied
    (b : Book)
    (fills : OrderId → List Execution) : Prop :=
  ∀ id o, b.latest? id = some o →
    tally (fills id) = o.executedBase.units

theorem tallied_iff :
    b.Tallied fills ↔
      b.Latest fun id o => tally (fills id) = o.executedBase.units :=
  Iff.rfl

end Book

namespace Desk

variable {L μ : Type} {hear : Hearing L μ} {d : Desk L μ}
variable {fills : OrderId → List Execution}

------------------------------------------------------------
-- Actions
------------------------------------------------------------

/-
  A fill that is accepted by the record which is found for it
  is added to the base total without a loss of digits.
-/
def ExactFor (d : Desk L μ) : Action → Prop
  | .update (.fill f) =>
      ∀ o ∈ (d.tracker.fetch f.orderId).2,
        o.Accepts f → o.FillsExactly f
  | _ => True

instance
    (d : Desk L μ)
    (a : Action) :
    Decidable (d.ExactFor a) := by
  unfold ExactFor
  split <;> infer_instance

/- An update to a record that is found is told in one way. -/
theorem told_process
    (hQuiet : hear.Quiet)
    {u : Update}
    {o : Order}
    (hFound : (d.tracker.fetch u.orderId).2 = some o)
    (hExact : d.ExactFor (.update u))
    (hWhole :
      (Answer.verdict (d.process hear u).2).isBroken = false) :
    (d.process hear u).2 =
        (o.respond u d.tracker.clock.now
          d.tracker.policy).2.verdict ∧
      o.Told u
        (o.respond u d.tracker.clock.now d.tracker.policy) := by
  have hVerdict := (process_known hQuiet hFound).1
  refine ⟨hVerdict, Order.told_respond ?_ ?_⟩
  · rintro f rfl
    exact hExact o hFound
  · rw [hVerdict] at hWhole
    exact Answer.ne_broken hWhole

/- What an update publishes is a fill exactly if it is one. -/
theorem fillsIn_process
    (hQuiet : hear.Quiet)
    {u : Update}
    (hExact : d.ExactFor (.update u))
    (hWhole :
      (Answer.verdict (d.process hear u).2).isBroken = false) :
    (∀ f events, u = .fill f →
      (d.process hear u).2 = .applied events →
        ∃ o e, (d.tracker.fetch u.orderId).2 = some o ∧
          fillsIn events = [e] ∧ e.Reports f (o.apply u).1) ∧
    ((∀ f events, u = .fill f →
        (d.process hear u).2 ≠ .applied events) →
      fillsIn (d.process hear u).2.events = []) := by
  cases hFound : (d.tracker.fetch u.orderId).2 with
  | none =>
      rw [(process_unknown hear hFound).2]
      exact ⟨by simp, fun _ => rfl⟩
  | some o =>
      rcases told_process hQuiet hFound hExact hWhole with
        ⟨hAnswer, hTold⟩
      rw [hAnswer]
      cases hTold with
      | filled f events e hFill hVerdict hFills hReports =>
          refine ⟨?_, ?_⟩
          · intro g others hSame hOthers
            rw [hVerdict] at hOthers
            obtain rfl := Verdict.applied.inj hOthers
            obtain rfl := Update.fill.inj (hFill.symm.trans hSame)
            exact ⟨o, e, rfl, hFills, hReports⟩
          · intro hOther
            exact absurd hVerdict (hOther f events hFill)
      | silent hOther hNone =>
          refine ⟨?_, fun _ => hNone⟩
          intro f events hFill hVerdict
          exact absurd hVerdict (hOther f events hFill)

/- An update raises the total of its name by what it tells. -/
theorem tallied_process
    (hQuiet : hear.Quiet)
    (hAll : d.tracker.book.All Order.InPlace)
    (hTallied : d.tracker.book.Tallied fills)
    {u : Update}
    (hExact : d.ExactFor (.update u))
    (hWhole :
      (Answer.verdict (d.process hear u).2).isBroken = false) :
    (d.process hear u).1.tracker.book.Tallied fun id =>
      fills id ++ fillsOf id (d.process hear u).2.events := by
  rw [Book.tallied_iff] at hTallied ⊢
  cases hFound :
      (d.tracker.book.find d.tracker.now u.orderId).2 with
  | none =>
      rw [(process_unknown hear hFound).2]
      refine
        (latest_unknown hear hAll.whole hTallied hFound).mono ?_
      intro id o hTally
      rw [tally_append, hTally]
      exact Int.add_zero _
  | some o =>
      have hOwn := (hAll.of_find hFound).own
      have hBefore := hTallied.of_find hAll.whole hFound
      rcases told_process hQuiet hFound hExact hWhole with
        ⟨hVerdict, hTold⟩
      rw [hVerdict]
      refine
        latest_process hQuiet hAll.whole hTallied hOwn hFound ?_ ?_
      · rw [tally_append, hTold.tally_eq hOwn, if_pos rfl, hBefore]
        omega
      · intro id p hOther hTally
        rw [tally_append, hTold.tally_eq hOwn, if_neg hOther,
          Int.add_zero]
        exact hTally

/- One action keeps the tallies. -/
theorem tallied_perform
    (hQuiet : hear.Quiet)
    (hAll : d.tracker.book.All Order.InPlace)
    (hTallied : d.tracker.book.Tallied fills)
    {a : Action}
    (hFresh : ∀ o, a = .start o → o.executedBase = .zero)
    (hExact : d.ExactFor a)
    (hWhole : (d.perform hear a).2.isBroken = false) :
    (d.perform hear a).1.tracker.book.Tallied fun id =>
      gatherFills id (fills id) (a, (d.perform hear a).2) := by
  rw [Book.tallied_iff] at hTallied ⊢
  by_cases hLetsGo : a.LetsGo
  · have hFades := (fades_perform hear hAll.whole hLetsGo).1
    refine (hTallied.fades hFades).mono ?_
    intro id o hTally
    rw [tally_gatherFills _ (Action.starts_of_letsGo hLetsGo id),
      events_of_letsGo hear d hLetsGo, hTally]
    exact Int.add_zero _
  · cases a with
    | start o =>
        refine hTallied.start ?_ ?_
        · have hNone :
              gatherFills o.id (fills o.id) (.start o, .done) =
                [] :=
            if_pos (decide_eq_true rfl)
          change
            tally
              (gatherFills o.id (fills o.id) (.start o, .done)) = _
          rw [hNone, hFresh o rfl]
          rfl
        · intro id p hOther hTally
          have hStarts : (Action.start o).starts id = false :=
            decide_eq_false (Ne.symm hOther)
          rw [tally_gatherFills _ hStarts, hTally]
          exact Int.add_zero _
    | update u =>
        exact tallied_process hQuiet hAll hTallied hExact hWhole
    | _ => exact absurd trivial hLetsGo

------------------------------------------------------------
-- Runs
------------------------------------------------------------

/- No base total loses a digit during a run. -/
def Lossless
    (hear : Hearing L μ)
    (d : Desk L μ)
    (as : List Action) : Prop :=
  Along hear ExactFor d as

instance decidableLossless
    (hear : Hearing L μ) :
    (d : Desk L μ) → (as : List Action) →
      Decidable (Lossless hear d as)
  | _, [] => inferInstanceAs (Decidable True)
  | d, a :: as =>
      have := decidableLossless hear (d.perform hear a).1 as
      inferInstanceAs
        (Decidable
          (d.ExactFor a ∧ Lossless hear (d.perform hear a).1 as))

/- A whole run keeps the tallies. -/
theorem tallied_run
    (hQuiet : hear.Quiet)
    (hAll : d.tracker.book.All Order.InPlace)
    (hTallied : d.tracker.book.Tallied fills)
    {as : List Action}
    (hRequested :
      ∀ o, .start o ∈ as → ∃ r, o = Order.ofRequest r)
    (hExact : Lossless hear d as)
    (hWhole :
      ∀ answer ∈ (d.run hear as).2, answer.isBroken = false) :
    (d.run hear as).1.tracker.book.Tallied fun id =>
      (as.zip (d.run hear as).2).foldl (gatherFills id)
        (fills id) := by
  -- The fills gathered so far change along with the desk.
  induction as generalizing d fills with
  | nil => exact hTallied
  | cons a as ih =>
      have hFirst :=
        tallied_perform hQuiet hAll hTallied
          (fun o hStart => by
            rcases hRequested o (by simp [hStart]) with ⟨r, rfl⟩
            rfl)
          hExact.1 (hWhole _ List.mem_cons_self)
      have hNext :=
        inPlace_perform hQuiet hAll (a := a)
          (fun o hStart => hRequested o (by simp [hStart]))
      exact
        ih hNext hFirst
          (fun o hMem => hRequested o (by simp [hMem]))
          hExact.2
          (fun answer hMem =>
            hWhole answer (List.mem_cons_of_mem _ hMem))

theorem tallied_opening
    (policy : TerminalPolicy)
    (capacity ttl : Nat)
    (clock : Time.Clock)
    (sink : Sink L)
    (memory : μ)
    (fills : OrderId → List Execution) :
    (opening policy capacity ttl clock sink
      memory).tracker.book.Tallied fills :=
  Book.Latest.empty _ capacity ttl

/-
  In a run of requested orders in which no base total loses a
  digit and no update is broken off, a fill that is applied is
  published by one event, with its amount, price and fee and
  with the name at the venue that its record then has, and no
  other update publishes a fill.  So at every point the fills
  published for a name since its last start add up to the
  base total of the record that is found.
-/
theorem fills_add_up
    (hQuiet : hear.Quiet)
    (policy : TerminalPolicy)
    (capacity ttl : Nat)
    (clock : Time.Clock)
    (sink : Sink L)
    (memory : μ)
    (as : List Action)
    (hRequested :
      ∀ o, .start o ∈ as → ∃ r, o = Order.ofRequest r) :
    let d₀ : Desk L μ :=
      opening policy capacity ttl clock sink memory
    Lossless hear d₀ as →
    (∀ answer ∈ (d₀.run hear as).2, answer.isBroken = false) →
    ∀ before after, as = before ++ after →
      let d := (d₀.run hear before).1
      (∀ u rest, after = .update u :: rest →
        let v := (d.process hear u).2
        (∀ f events, u = .fill f → v = .applied events →
          ∃ o e, (d.tracker.fetch u.orderId).2 = some o ∧
            fillsIn events = [e] ∧
            e.Reports f (o.apply u).1) ∧
        ((∀ f events, u = .fill f → v ≠ .applied events) →
          fillsIn v.events = [])) ∧
      ∀ id o, (d.tracker.fetch id).2 = some o →
        tally
            (fillsSince id
              (before.zip (d₀.run hear before).2)) =
          o.executedBase.units := by
  rintro d₀ hExact hWhole before after rfl d
  have hStarted :
      ∀ o, .start o ∈ before → ∃ r, o = Order.ofRequest r :=
    fun o hMem => hRequested o (by simp [hMem])
  have hAll : d.tracker.book.All Order.InPlace :=
    inPlace_run hQuiet policy capacity ttl clock sink memory
      hStarted
  rcases along_append.mp hExact with ⟨hExact₁, hExact₂⟩
  rw [run_append, List.forall_mem_append] at hWhole
  refine ⟨?_, ?_⟩
  · rintro u rest rfl v
    exact
      fillsIn_process hQuiet hExact₂.1
        (hWhole.2 _ List.mem_cons_self)
  · intro id o hFound
    have hEmpty : d₀.tracker.book.All Order.InPlace :=
      Book.All.empty Order.InPlace capacity ttl
    have hTallied :=
      tallied_run hQuiet hEmpty
        (tallied_opening policy capacity ttl clock sink memory
          fun _ => [])
        hStarted hExact₁ hWhole.1
    exact
      hTallied id o (Book.latest?_of_find hAll.whole hFound).1

/- A second fill, of half a unit, that names the venue. -/
def halfFill : Fill :=
  { Order.sampleFill with
    tradeId := "s", sequence := 1, venueId := some "v"
    base := (Decimal.ofParts? false 5 1).getD .zero }

/- An order that is done by its first fill, and gets another. -/
def filledTwice : List Action :=
  [.start (.ofRequest Order.sampleRequest),
    .update (.fill Order.sampleFill),
    .update (.fill halfFill)]

theorem requested_filledTwice
    (o : Order)
    (hMem : .start o ∈ filledTwice) :
    ∃ r, o = Order.ofRequest r :=
  ⟨Order.sampleRequest, by simpa [filledTwice] using hMem⟩

/- A desk that keeps one retired order for a while. -/
def smallDesk : Desk Unit Unit :=
  opening .once 1 10 default .silent ()

/- The same desk, but with the other policy. -/
def replayDesk : Desk Unit Unit :=
  opening .replay 1 10 default .silent ()

/-
  The fill of an order that is done and retired adds up with
  the one that has filled it.
-/
theorem fills_add_up_filledTwice :
    Lossless Hearing.idle smallDesk filledTwice ∧
      (∀ answer ∈ (smallDesk.run Hearing.idle filledTwice).2,
        answer.isBroken = false) ∧
      (smallDesk.run Hearing.idle
        filledTwice).1.tracker.book.isActive "a" = false ∧
      ∃ o,
        ((smallDesk.run Hearing.idle
          filledTwice).1.tracker.fetch "a").2 = some o ∧
        tally
            (fillsSince "a"
              (filledTwice.zip
                (smallDesk.run Hearing.idle filledTwice).2)) =
          o.executedBase.units := by
  have hLossless :
      Lossless Hearing.idle smallDesk filledTwice := by
    decide +kernel
  have hWhole :
      ∀ answer ∈ (smallDesk.run Hearing.idle filledTwice).2,
        answer.isBroken = false := by
    decide +kernel
  have hFound :
      ((smallDesk.run Hearing.idle
        filledTwice).1.tracker.fetch "a").2.isSome = true := by
    decide +kernel
  have hIdle : (Hearing.idle : Hearing Unit Unit).Still :=
    Hearing.still_idle
  have hRun :=
    fills_add_up hIdle.quiet .once 1 10 default .silent ()
      filledTwice requested_filledTwice hLossless hWhole filledTwice []
      (List.append_nil _).symm
  rcases Option.isSome_iff_exists.mp hFound with ⟨o, hSome⟩
  exact
    ⟨hLossless, hWhole, by decide +kernel, o, hSome,
      hRun.2 "a" o hSome⟩

end Desk

end OrderWatch
