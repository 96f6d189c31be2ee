import OrderWatch.Proofs.Desk.Fills
import OrderWatch.Proofs.Order.Ends

/-
  The two policies side by side.

  Two desks do the same at the same times, one under `once`
  and the other under `replay`.  They have the same records
  all the time, and answer alike, except that under `replay`
  the end of an order is told again with every update that
  is applied afterwards.  Under `once` only the first telling
  is left, until the order is started anew.

  Main declarations:
    * `Tiding`, `tidings`, `firstEnds`
    * `Order.Agree.firstEnds_eq`
    * `Order.MarkedIn`
    * `Desk.Paired`, `Desk.SameTimes`
    * `Desk.Paired.perform`, `Desk.Paired.run`
    * `Desk.Paired.repeatedBy_process`
    * `Desk.Paired.firstEnds_perform`, `firstEnds_run`
    * `Desk.once_within_replay`
-/

namespace OrderWatch

------------------------------------------------------------
-- Tidings
------------------------------------------------------------

/- That an order has been started, or an event. -/
inductive Tiding where
  | started (id : OrderId)
  | told (e : Event)
deriving DecidableEq, Repr

/- The order that an action starts. -/
def Action.tidings : Action → List Tiding
  | .start o => [.started o.id]
  | _ => []

/- What becomes known by an action and its answer. -/
def newsOf (step : Action × Answer) : List Tiding :=
  step.1.tidings ++ step.2.events.map .told

/- What becomes known during some actions. -/
def tidings (history : List (Action × Answer)) : List Tiding :=
  history.flatMap newsOf

namespace Tiding

/- The names whose end is known once a tiding is known. -/
def close (closed : List OrderId) : Tiding → List OrderId
  | .started id => closed.filter fun k => k ≠ id
  | .told e => if e.isTerminal then e.orderId :: closed else closed

/- An end that is known before. -/
def repeats (closed : List OrderId) : Tiding → Bool
  | .started _ => false
  | .told e => e.isTerminal && e.orderId ∈ closed

end Tiding

/- The names whose end is known once some tidings are known. -/
def closedBy
    (closed : List OrderId)
    (ts : List Tiding) : List OrderId :=
  ts.foldl Tiding.close closed

/- Some tidings without the ends that are known before. -/
def firstEnds
    (closed : List OrderId) : List Tiding → List Tiding
  | [] => []
  | t :: ts =>
      if t.repeats closed then
        firstEnds (t.close closed) ts
      else
        t :: firstEnds (t.close closed) ts

theorem firstEnds_append
    (closed : List OrderId)
    (ts us : List Tiding) :
    firstEnds closed (ts ++ us) =
      firstEnds closed ts ++ firstEnds (closedBy closed ts) us := by
  induction ts generalizing closed with
  | nil => rfl
  | cons t ts ih =>
      simp only [List.cons_append, firstEnds, closedBy,
        List.foldl_cons, ih]
      split <;> rfl

/- Events that are not terminal stay, and end nothing. -/
theorem firstEnds_news
    (closed : List OrderId)
    {events : List Event}
    (hNews : ∀ e ∈ events, e.isTerminal = false) :
    firstEnds closed (events.map .told) = events.map .told ∧
      closedBy closed (events.map .told) = closed := by
  induction events with
  | nil => exact ⟨rfl, rfl⟩
  | cons e events ih =>
      have hFirst := hNews e (by simp)
      have hClose : (Tiding.told e).close closed = closed := by
        simp [Tiding.close, hFirst]
      have hRest := ih (fun n hMem => hNews n (by simp [hMem]))
      refine ⟨?_, ?_⟩
      · simp [firstEnds, Tiding.repeats, hFirst, hClose, hRest.1]
      · rw [List.map_cons]
        unfold closedBy
        rw [List.foldl_cons, hClose]
        exact hRest.2

/- What an event that is terminal adds to some that are not. -/
theorem firstEnds_end
    (closed : List OrderId)
    {events : List Event}
    {e : Event}
    (hNews : ∀ n ∈ events, n.isTerminal = false)
    (hEnd : e.isTerminal = true) :
    firstEnds closed ((events ++ [e]).map .told) =
        (if e.orderId ∈ closed then events
          else events ++ [e]).map .told ∧
      closedBy closed ((events ++ [e]).map .told) =
        e.orderId :: closed := by
  rcases firstEnds_news closed hNews with ⟨hStay, hSame⟩
  rw [List.map_append, firstEnds_append, hStay, hSame]
  refine ⟨?_, ?_⟩
  · by_cases hKnown : e.orderId ∈ closed
    · simp [firstEnds, Tiding.repeats, hEnd, hKnown]
    · simp [firstEnds, Tiding.repeats, hEnd, hKnown]
  · unfold closedBy at hSame ⊢
    rw [List.foldl_append, hSame]
    simp [Tiding.close, hEnd]

/-
  Only the first telling of the end is left of two responses
  that go together, and the record is marked if it is known.
-/
theorem Order.Agree.firstEnds_eq
    {o : Order}
    {r r' : Order × Tracker.Receipt}
    (h : o.Agree r r')
    {closed : List OrderId}
    (hMark : o.announced = true ↔ o.id ∈ closed) :
    firstEnds closed (r'.2.verdict.events.map .told) =
        r.2.verdict.events.map .told ∧
      ∀ id,
        id ∈ closedBy closed (r'.2.verdict.events.map .told) ↔
          if id = o.id then r.1.announced = true
          else id ∈ closed := by
  cases h with
  | refused r hRefused hSame =>
      have hNone : r.2.verdict.events = [] := by
        cases hVerdict : r.2.verdict with
        | applied events => exact absurd hVerdict (hRefused events)
        | _ => rfl
      rw [hNone, hSame, hMark]
      refine ⟨rfl, ?_⟩
      intro id
      split
      · rename_i hOwn
        rw [hOwn]
        rfl
      · rfl
  | unfinished p events retire hNews hBefore hAfter =>
      rcases firstEnds_news closed hNews with ⟨hStay, hSame⟩
      refine ⟨hStay, ?_⟩
      intro id
      change id ∈ closedBy closed (events.map .told) ↔ _
      rw [hSame]
      split
      · rename_i hOwn
        rw [hOwn, ← hMark, hBefore, hAfter]
      · rfl
  | first p events retire e hNews hEnd hBefore hAfter =>
      rcases firstEnds_end closed hNews hEnd.1 with
        ⟨hStay, hClosed⟩
      rw [hBefore] at hMark
      have hNew : e.orderId ∉ closed := by
        rw [hEnd.2, ← hMark]
        decide
      rw [if_neg hNew] at hStay
      refine ⟨hStay, ?_⟩
      intro id
      change id ∈ closedBy closed ((events ++ [e]).map .told) ↔ _
      rw [hClosed, List.mem_cons, hEnd.2, hAfter]
      by_cases hOwn : id = o.id <;> simp [hOwn]
  | again p events retire e hNews hEnd hBefore hAfter =>
      rcases firstEnds_end closed hNews hEnd.1 with
        ⟨hStay, hClosed⟩
      rw [hBefore] at hMark
      have hKnown : e.orderId ∈ closed := by
        rw [hEnd.2, ← hMark]
      rw [if_pos hKnown] at hStay
      refine ⟨hStay, ?_⟩
      intro id
      change id ∈ closedBy closed ((events ++ [e]).map .told) ↔ _
      rw [hClosed, List.mem_cons, hEnd.2, hAfter]
      by_cases hOwn : id = o.id <;> simp [hOwn]

------------------------------------------------------------
-- Marked records
------------------------------------------------------------

/- A record is marked exactly if its name is listed. -/
def Order.MarkedIn
    (closed : List OrderId)
    (id : OrderId)
    (o : Order) : Prop :=
  o.announced = true ↔ id ∈ closed

/- A new order is not marked, and its name is taken out. -/
theorem Book.Latest.start_marked
    {b : Book}
    {closed : List OrderId}
    (h : b.Latest (Order.MarkedIn closed))
    {o : Order}
    (hFresh : o.announced = false) :
    (b.start o).Latest
      (Order.MarkedIn (closed.filter fun k => k ≠ o.id)) := by
  refine h.start ?_ ?_
  · simp [Order.MarkedIn, hFresh]
  · intro id p hOther hMark
    unfold Order.MarkedIn at hMark ⊢
    rw [hMark]
    simp [hOther]

------------------------------------------------------------
-- Desks under either policy
------------------------------------------------------------

variable {L μ : Type}

namespace Desk

variable {hear : Hearing L μ} {d d' : Desk L μ}

/- Two desks that differ in their policies only. -/
structure Paired (d d' : Desk L μ) : Prop where
  once : d.tracker.policy = .once
  replay : d'.tracker.policy = .replay
  clock_eq : d'.tracker.clock = d.tracker.clock
  book_eq : d'.tracker.book = d.tracker.book

/- Two desks are at the same time after every action. -/
def SameTimes
    (hear : Hearing L μ) :
    Desk L μ → Desk L μ → List Action → Prop
  | _, _, [] => True
  | d, d', a :: as =>
      (d'.perform hear a).1.tracker.clock =
          (d.perform hear a).1.tracker.clock ∧
        SameTimes hear (d.perform hear a).1
          (d'.perform hear a).1 as

/- Still listeners leave the time to the actions. -/
theorem clock_perform
    (hStill : hear.Still)
    (d : Desk L μ)
    (a : Action) :
    (d.perform hear a).1.tracker.clock = d.clockAfter a := by
  cases a with
  | update u =>
      cases hFound :
          (d.tracker.book.find d.tracker.now u.orderId).2 with
      | none =>
          have hCore := (process_unknown hear hFound).1
          exact Tracker.clock_of_core hCore
      | some o =>
          have hCore := (process_still hStill hFound).2
          exact Tracker.clock_of_core hCore
  | _ => exact Tracker.clock_of_core (core_perform hear d (by simp))

/- So two desks with still listeners keep the same time. -/
theorem sameTimes_of_still
    (hStill : hear.Still)
    (hClock : d'.tracker.clock = d.tracker.clock)
    (as : List Action) :
    SameTimes hear d d' as := by
  induction as generalizing d d' with
  | nil => trivial
  | cons a as ih =>
      have hNext :
          (d'.perform hear a).1.tracker.clock =
            (d.perform hear a).1.tracker.clock := by
        rw [clock_perform hStill, clock_perform hStill]
        unfold clockAfter
        rw [hClock]
      exact ⟨hNext, ih hNext⟩

/- By letting go of an order nothing becomes known. -/
theorem newsOf_of_letsGo
    (hear : Hearing L μ)
    (d : Desk L μ)
    {a : Action}
    (hLetsGo : a.LetsGo) :
    newsOf (a, (d.perform hear a).2) = [] := by
  unfold newsOf
  rw [events_of_letsGo hear d hLetsGo]
  cases a with
  | start o => contradiction
  | _ => rfl

namespace Paired

theorem now_eq
    (h : d.Paired d') :
    d'.tracker.now = d.tracker.now :=
  congrArg Time.Clock.elapsed h.clock_eq

theorem find_eq
    (h : d.Paired d')
    (id : OrderId) :
    d'.tracker.book.find d'.tracker.now id =
      d.tracker.book.find d.tracker.now id := by
  rw [h.book_eq, h.now_eq]

/-
  The responses to an update go together, and they leave the
  same book if the listeners take the same time.
-/
theorem process
    (hQuiet : hear.Quiet)
    (h : d.Paired d')
    (hAll : d.tracker.book.All Order.InPlace)
    {u : Update}
    {o : Order}
    (hFound : (d.tracker.fetch u.orderId).2 = some o) :
    let r := o.respond u d.tracker.clock.now .once
    let r' := o.respond u d.tracker.clock.now .replay
    o.Agree r r' ∧
      (d.process hear u).2 = r.2.verdict ∧
      (d'.process hear u).2 = r'.2.verdict ∧
      ((d'.process hear u).1.tracker.clock =
          (d.process hear u).1.tracker.clock →
        (d'.process hear u).1.tracker.book =
          (d.process hear u).1.tracker.book) := by
  intro r r'
  have hFound' :
      (d'.tracker.book.find d'.tracker.now u.orderId).2 =
        some o := by
    rw [h.find_eq]
    exact hFound
  have hAgree : o.Agree r r' :=
    (hAll.of_find hFound).settled.agree u d.tracker.clock.now
  rcases process_known hQuiet hFound with ⟨hVerdict, hCore⟩
  rcases process_known hQuiet hFound' with ⟨hVerdict', hCore'⟩
  rw [h.once] at hVerdict hCore
  rw [h.replay, h.clock_eq] at hVerdict' hCore'
  refine ⟨hAgree, hVerdict, hVerdict', ?_⟩
  intro hClock
  have hNow :
      (d'.heard hear u).tracker.now =
        (d.heard hear u).tracker.now := by
    rw [Tracker.clock_of_core hCore,
      Tracker.clock_of_core hCore'] at hClock
    exact congrArg Time.Clock.elapsed hClock
  rcases hAgree.record_eq with ⟨hRecord, hRetire⟩
  rw [Tracker.book_of_core hCore, Tracker.book_of_core hCore',
    h.find_eq, hNow, hRecord, hRetire]

/- An end that has been told before is told once more. -/
theorem repeatedBy_process
    (hQuiet : hear.Quiet)
    (h : d.Paired d')
    (hAll : d.tracker.book.All Order.InPlace)
    (u : Update) :
    let told :=
      (d.tracker.fetch u.orderId).2.any Order.announced
    (d.process hear u).2.RepeatedBy told
      (d'.process hear u).2 := by
  intro told
  cases hFound : (d.tracker.fetch u.orderId).2 with
  | none =>
      have hFound' :=
        (congrArg Prod.snd (h.find_eq u.orderId)).trans hFound
      rw [(process_unknown hear hFound).2,
        (process_unknown hear hFound').2]
      rfl
  | some o =>
      have hTold : told = o.announced :=
        congrArg (Option.any Order.announced) hFound
      rcases h.process hQuiet hAll hFound with
        ⟨hAgree, hVerdict, hVerdict', _⟩
      rw [hTold, hVerdict, hVerdict']
      exact hAgree.repeatedBy

/- Any other action is answered alike. -/
theorem answer_eq
    (h : d.Paired d')
    {a : Action}
    (hOther : ∀ u, a ≠ .update u) :
    (d'.perform hear a).2 = (d.perform hear a).2 := by
  rw [answer_perform hear d hOther, answer_perform hear d' hOther]
  unfold answerTo Tracker.fetchActive Tracker.summary
  rw [h.book_eq, h.now_eq, h.clock_eq]

/- What an action does to the book does not tell them apart. -/
theorem bookAfter_eq
    (h : d.Paired d')
    (a : Action) :
    d'.bookAfter a = d.bookAfter a := by
  unfold bookAfter
  rw [h.book_eq, h.now_eq]

/- One action is done by both desks. -/
theorem perform
    (hQuiet : hear.Quiet)
    (h : d.Paired d')
    (hAll : d.tracker.book.All Order.InPlace)
    {a : Action}
    (hClock :
      (d'.perform hear a).1.tracker.clock =
        (d.perform hear a).1.tracker.clock) :
    (d.perform hear a).1.Paired (d'.perform hear a).1 where
  once := (policy_perform hQuiet d a).trans h.once
  replay := (policy_perform hQuiet d' a).trans h.replay
  clock_eq := hClock
  book_eq := by
    cases a with
    | update u =>
        cases hFound :
            (d.tracker.book.find d.tracker.now u.orderId).2 with
        | none =>
            have hSame := h.find_eq u.orderId
            have hFound' := (congrArg Prod.snd hSame).trans hFound
            have hCore := (process_unknown hear hFound).1
            have hCore' := (process_unknown hear hFound').1
            exact
              (Tracker.book_of_core hCore').trans
                ((congrArg Prod.fst hSame).trans
                  (Tracker.book_of_core hCore).symm)
        | some o =>
            exact (h.process hQuiet hAll hFound).2.2.2 hClock
    | _ =>
        rw [book_perform hear d (by simp),
          book_perform hear d' (by simp), h.bookAfter_eq]

/- Both desks do the same actions, at the same times. -/
theorem run
    (hQuiet : hear.Quiet)
    (h : d.Paired d')
    (hAll : d.tracker.book.All Order.InPlace)
    {as : List Action}
    (hRequested :
      ∀ o, .start o ∈ as → ∃ r, o = Order.ofRequest r)
    (hTimes : SameTimes hear d d' as) :
    (d.run hear as).1.Paired (d'.run hear as).1 := by
  induction as generalizing d d' with
  | nil => exact h
  | cons a as ih =>
      have hNext :=
        inPlace_perform hQuiet hAll (a := a)
          (fun o hStart => hRequested o (by simp [hStart]))
      exact
        ih (h.perform hQuiet hAll hTimes.1) hNext
          (fun o hMem => hRequested o (by simp [hMem])) hTimes.2

------------------------------------------------------------
-- What is told
------------------------------------------------------------

/- The first ends of one update, and the marks afterwards. -/
theorem firstEnds_process
    (hQuiet : hear.Quiet)
    (h : d.Paired d')
    (hAll : d.tracker.book.All Order.InPlace)
    {closed : List OrderId}
    (hMarks : d.tracker.book.Latest (Order.MarkedIn closed))
    (u : Update) :
    let told := (d.process hear u).2.events.map Tiding.told
    let told' := (d'.process hear u).2.events.map Tiding.told
    firstEnds closed told' = told ∧
      (d.process hear u).1.tracker.book.Latest
        (Order.MarkedIn (closedBy closed told')) := by
  intro told told'
  cases hFound :
      (d.tracker.book.find d.tracker.now u.orderId).2 with
  | none =>
      have hFound' :=
        (congrArg Prod.snd (h.find_eq u.orderId)).trans hFound
      have hVerdict := (process_unknown hear hFound).2
      have hVerdict' := (process_unknown hear hFound').2
      have hNone : told = [] :=
        congrArg (fun v => v.events.map Tiding.told) hVerdict
      have hNone' : told' = [] :=
        congrArg (fun v => v.events.map Tiding.told) hVerdict'
      rw [hNone, hNone']
      exact
        ⟨rfl, latest_unknown hear hAll.whole hMarks hFound⟩
  | some o =>
      have hOwn := (hAll.of_find hFound).own
      rcases h.process hQuiet hAll hFound with
        ⟨hAgree, hVerdict, hVerdict', _⟩
      have hMark : o.announced = true ↔ o.id ∈ closed := by
        rw [hOwn]
        exact hMarks.of_find hAll.whole hFound
      rcases hAgree.firstEnds_eq hMark with ⟨hFirst, hClosed⟩
      rw [← hVerdict, ← hVerdict'] at hFirst
      rw [← hVerdict', hOwn] at hClosed
      refine
        ⟨hFirst,
          latest_process hQuiet hAll.whole hMarks hOwn hFound
            ?_ ?_⟩
      · unfold Order.MarkedIn
        rw [hClosed, if_pos rfl, h.once]
      · intro id p hOther hMark
        unfold Order.MarkedIn
        rw [hClosed, if_neg hOther]
        exact hMark

/- The first ends of one action, and the marks afterwards. -/
theorem firstEnds_perform
    (hQuiet : hear.Quiet)
    (h : d.Paired d')
    (hAll : d.tracker.book.All Order.InPlace)
    {closed : List OrderId}
    (hMarks : d.tracker.book.Latest (Order.MarkedIn closed))
    {a : Action}
    (hFresh : ∀ o, a = .start o → o.announced = false) :
    let news := newsOf (a, (d.perform hear a).2)
    let news' := newsOf (a, (d'.perform hear a).2)
    firstEnds closed news' = news ∧
      (d.perform hear a).1.tracker.book.Latest
        (Order.MarkedIn (closedBy closed news')) := by
  intro news news'
  by_cases hLetsGo : a.LetsGo
  · have hFades := (fades_perform hear hAll.whole hLetsGo).1
    have hSilent : news = [] := newsOf_of_letsGo hear d hLetsGo
    have hSilent' : news' = [] :=
      newsOf_of_letsGo hear d' hLetsGo
    rw [hSilent, hSilent']
    exact ⟨rfl, hMarks.fades hFades⟩
  · cases a with
    | start o => exact ⟨rfl, hMarks.start_marked (hFresh o rfl)⟩
    | update u => exact h.firstEnds_process hQuiet hAll hMarks u
    | _ => exact absurd trivial hLetsGo

/- The first ends of a whole run. -/
theorem firstEnds_run
    (hQuiet : hear.Quiet)
    (h : d.Paired d')
    (hAll : d.tracker.book.All Order.InPlace)
    {closed : List OrderId}
    (hMarks : d.tracker.book.Latest (Order.MarkedIn closed))
    {as : List Action}
    (hRequested :
      ∀ o, .start o ∈ as → ∃ r, o = Order.ofRequest r)
    (hTimes : SameTimes hear d d' as) :
    firstEnds closed (tidings (as.zip (d'.run hear as).2)) =
      tidings (as.zip (d.run hear as).2) := by
  -- The ends that are known change along with the desks.
  induction as generalizing d d' closed with
  | nil => rfl
  | cons a as ih =>
      have hStarts :
          ∀ o, a = .start o → ∃ r, o = Order.ofRequest r :=
        fun o hStart => hRequested o (by simp [hStart])
      have hFresh : ∀ o, a = .start o → o.announced = false := by
        intro o hStart
        rcases hStarts o hStart with ⟨r, rfl⟩
        rfl
      rcases h.firstEnds_perform hQuiet hAll hMarks hFresh with
        ⟨hFirst, hNext⟩
      have hRest :=
        ih (h.perform hQuiet hAll hTimes.1)
          (inPlace_perform hQuiet hAll hStarts) hNext
          (fun o hMem => hRequested o (by simp [hMem])) hTimes.2
      change
        firstEnds closed
            (newsOf (a, (d'.perform hear a).2) ++
              tidings
                (as.zip ((d'.perform hear a).1.run hear as).2)) =
          newsOf (a, (d.perform hear a).2) ++
            tidings
              (as.zip ((d.perform hear a).1.run hear as).2)
      rw [firstEnds_append, hFirst, hRest]

end Paired

/-
  A run of requested orders is done under `once` and, at the
  same times, under `replay`.  The books are the same at every
  point, every record, its mark and its place included, and
  all that is done next is answered alike; only, an update of
  a record whose end has been told before is followed by that
  end once more under `replay`.  So what becomes known under
  `once` is what becomes known under `replay` without the ends
  that have been told since the latest start of their order.
-/
theorem once_within_replay
    (hQuiet : hear.Quiet)
    (capacity ttl : Nat)
    (clock : Time.Clock)
    (sink : Sink L)
    (memory : μ)
    (as : List Action)
    (hRequested :
      ∀ o, .start o ∈ as → ∃ r, o = Order.ofRequest r) :
    let d₀ : Desk L μ :=
      opening .once capacity ttl clock sink memory
    let d₀' : Desk L μ :=
      opening .replay capacity ttl clock sink memory
    SameTimes hear d₀ d₀' as →
    let d := (d₀.run hear as).1
    let d' := (d₀'.run hear as).1
    d'.tracker.core = { d.tracker.core with policy := .replay } ∧
    (∀ a, (∀ u, a ≠ .update u) →
      (d'.perform hear a).2 = (d.perform hear a).2) ∧
    (∀ u,
      let told :=
        (d.tracker.fetch u.orderId).2.any Order.announced
      (d.process hear u).2.RepeatedBy told
        (d'.process hear u).2) ∧
    tidings (as.zip (d₀.run hear as).2) =
      firstEnds [] (tidings (as.zip (d₀'.run hear as).2)) := by
  intro d₀ d₀' hTimes d d'
  have hPaired : d₀.Paired d₀' := ⟨rfl, rfl, rfl, rfl⟩
  have hEmpty : d₀.tracker.book.All Order.InPlace :=
    Book.All.empty Order.InPlace capacity ttl
  have hAll : d.tracker.book.All Order.InPlace :=
    inPlace_run hQuiet .once capacity ttl clock sink memory
      hRequested
  have hLast : d.Paired d' :=
    hPaired.run hQuiet hEmpty hRequested hTimes
  refine ⟨?_, ?_, ?_, ?_⟩
  · unfold Tracker.core
    rw [hLast.replay, hLast.clock_eq, hLast.book_eq]
  · intro a hOther
    exact hLast.answer_eq hOther
  · intro u
    exact hLast.repeatedBy_process hQuiet hAll u
  · have hMarks :=
      Book.Latest.empty (Order.MarkedIn []) capacity ttl
    exact
      (hPaired.firstEnds_run hQuiet hEmpty hMarks hRequested
        hTimes).symm

/-
  A retired order is filled a second time: its completion is
  told again under `replay` only.
-/
theorem once_within_replay_filledTwice :
    (tidings
        (filledTwice.zip
          (replayDesk.run Hearing.idle
            filledTwice).2)).length = 5 ∧
      (tidings
        (filledTwice.zip
          (smallDesk.run Hearing.idle
            filledTwice).2)).length = 4 ∧
      tidings
          (filledTwice.zip
            (smallDesk.run Hearing.idle filledTwice).2) =
        firstEnds []
          (tidings
            (filledTwice.zip
              (replayDesk.run Hearing.idle filledTwice).2)) := by
  have hIdle : (Hearing.idle : Hearing Unit Unit).Still :=
    Hearing.still_idle
  have hRun :=
    once_within_replay hIdle.quiet 1 10 default .silent ()
      filledTwice requested_filledTwice
      (sameTimes_of_still hIdle rfl filledTwice)
  exact
    ⟨by decide +kernel, by decide +kernel, hRun.2.2.2⟩

end Desk

end OrderWatch
