import OrderWatch.Proofs.Desk.Frame
import OrderWatch.Proofs.Desk.Lapsing
import OrderWatch.Proofs.Desk.Publication

/-
  What listeners read while an update is told.

  The events of an update are told in rounds, one for each of
  them, in which all subscribers of its topic are called in
  turn.  Listeners that only look things up may change which
  retired order was used last, and drop some that have
  expired, but nothing that they could see.  So each of them
  finds the record as the update has left it for good, and
  finds it active if it was so before: only after the last
  call of the last round is the order retired.

  Main declarations:
    * `Deed.Reads`, `Deed.Keeps`, `Hearing.Reads`
    * `Tracker.Mirrors`, `Tracker.Mirrors.afterAll`
    * `Round`, `Desk.rounds`
    * `Desk.mirrors_publishAll`
    * `Desk.ReadsBack`, `Desk.readsBack_of_mirrors`
    * `Desk.read_while_told`
-/

namespace OrderWatch

variable {L μ : Type}

------------------------------------------------------------
-- Looking things up
------------------------------------------------------------

/- Whether a deed only looks something up. -/
def Deed.Reads : Deed → Prop
  | .fetch _ | .fetchRetired _ => True
  | .start _ | .receive _ | .stop _ | .purge | .advance _ =>
      False

/- Whether a deed leaves all that can be seen as it is. -/
def Deed.Keeps : Deed → Prop
  | .fetch _ | .fetchRetired _ | .purge => True
  | .start _ | .receive _ | .stop _ | .advance _ => False

theorem Deed.Reads.keeps
    {a : Deed}
    (hReads : a.Reads) :
    a.Keeps := by
  cases a with
  | fetch id | fetchRetired id => trivial
  | _ => contradiction

/- Listeners that only look things up in the tracker. -/
def Hearing.Reads (hear : Hearing L μ) : Prop :=
  ∃ deeds,
    hear.Does deeds ∧ ∀ l e d, ∀ a ∈ deeds l e d, a.Reads

namespace Tracker

variable {t t' t'' : Tracker}

/- A tracker in which the same things are seen. -/
structure Mirrors (t t' : Tracker) : Prop where
  clock_eq : t'.clock = t.clock
  whole : t'.book.Whole
  active_eq : t'.book.active = t.book.active
  place_eq : ∀ k, t'.book.place t.now k = t.book.place t.now k

namespace Mirrors

theorem refl
    (hWhole : t.book.Whole) :
    t.Mirrors t :=
  ⟨rfl, hWhole, rfl, fun _ => rfl⟩

theorem now_eq
    (h : t.Mirrors t') :
    t'.now = t.now :=
  congrArg Time.Clock.elapsed h.clock_eq

/- The same order is found. -/
theorem fetch_eq
    (h : t.Mirrors t')
    (id : OrderId) :
    (t'.fetch id).2 = (t.fetch id).2 := by
  change (t'.book.find t'.now id).2 = (t.book.find t.now id).2
  rw [h.now_eq, Book.find_place, h.place_eq, ← Book.find_place]

/- The journal is not looked at. -/
theorem of_core
    (h : t.Mirrors t')
    (hCore : t''.core = t'.core) :
    t.Mirrors t'' := by
  have hBook : t''.book = t'.book := book_of_core hCore
  have hClock : t''.clock = t'.clock := clock_of_core hCore
  exact
    { clock_eq := hClock.trans h.clock_eq
      whole := hBook ▸ h.whole
      active_eq := hBook ▸ h.active_eq
      place_eq := hBook ▸ h.place_eq }

theorem after
    (h : t.Mirrors t')
    {a : Deed}
    (hKeeps : a.Keeps) :
    t.Mirrors (t'.after a) := by
  have hNow := h.now_eq
  cases a with
  | fetch id =>
      exact
        { clock_eq := h.clock_eq
          whole := Book.whole_find h.whole t'.now id
          active_eq :=
            (Book.active_find t'.book t'.now id).trans
              h.active_eq
          place_eq := by
            intro k
            rw [← h.place_eq, ← hNow]
            exact Book.place_find h.whole id k }
  | fetchRetired id =>
      exact
        { clock_eq := h.clock_eq
          whole := Book.whole_findRetired h.whole t'.now id
          active_eq := h.active_eq
          place_eq := by
            intro k
            rw [← h.place_eq, ← hNow]
            exact Book.place_findRetired h.whole id k }
  | purge =>
      have hPurged :
          t.Mirrors
            { t' with book := (t'.book.purge t'.now).1 } :=
        { clock_eq := h.clock_eq
          whole := Book.whole_purge h.whole t'.now
          active_eq := h.active_eq
          place_eq := by
            intro k
            rw [← h.place_eq, ← hNow]
            exact Book.place_purge h.whole k }
      exact hPurged.of_core (core_purge t').1
  | _ => contradiction

theorem afterAll
    (h : t.Mirrors t')
    {ds : List Deed}
    (hKeeps : ∀ a ∈ ds, a.Keeps) :
    t.Mirrors (t'.afterAll ds) := by
  induction ds generalizing t' with
  | nil => exact h
  | cons a ds ih =>
      apply ih (h.after (hKeeps a List.mem_cons_self))
      intro a hMem
      exact hKeeps a (List.mem_cons_of_mem _ hMem)

end Mirrors

end Tracker

------------------------------------------------------------
-- Rounds
------------------------------------------------------------

/- The publication of one event. -/
structure Round (L μ : Type) where
  event : Event
  /- The desk when the publication begins. -/
  start : Desk L μ
  /- Who is called, each with the desk as it is found. -/
  visits : List (Listener L × Desk L μ)

/-
  All who have been subscribed to the topic are called in
  turn, and each one finds what the ones before have left.
  These calls are all that the bus does for the event.
-/
structure Round.Regular
    (hear : Hearing L μ)
    (r : Round L μ) : Prop where
  listeners :
    r.visits.map Prod.fst =
      r.start.bus.subscribers r.event.topic
  desks :
    ∀ before l m after,
      r.visits = before ++ (l, m) :: after →
      m =
        (before.map Prod.fst).foldl
          (Desk.deliver hear r.event) r.start
  publication :
    ∀ b, r.start.sink = .bus b →
      r.start.publish hear r.event =
        (r.visits.map Prod.fst).foldl
          (Desk.deliver hear r.event) r.start

namespace Desk

section Rounds

variable (hear : Hearing L μ)

/- The calls of some listeners, with the desks they find. -/
def visitsTo
    (e : Event) :
    Desk L μ → List (Listener L) → List (Listener L × Desk L μ)
  | _, [] => []
  | d, l :: ls => (l, d) :: visitsTo e (deliver hear e d l) ls

def roundOf (d : Desk L μ) (e : Event) : Round L μ :=
  ⟨e, d, visitsTo hear e d (d.bus.subscribers e.topic)⟩

/- The rounds in which some events are told. -/
def roundsOf : Desk L μ → List Event → List (Round L μ)
  | _, [] => []
  | d, e :: events =>
      d.roundOf hear e :: roundsOf (d.publish hear e) events

/- The rounds in which an update is told. -/
def rounds (d : Desk L μ) (u : Update) : List (Round L μ) :=
  (d.received u).roundsOf hear
    (d.tracker.receive u).2.verdict.events

end Rounds

variable {hear : Hearing L μ} {d : Desk L μ} {u : Update}
variable {t : Tracker}

theorem listeners_visitsTo
    (hear : Hearing L μ)
    (e : Event)
    (d : Desk L μ)
    (ls : List (Listener L)) :
    (visitsTo hear e d ls).map Prod.fst = ls := by
  induction ls generalizing d with
  | nil => rfl
  | cons l ls ih =>
      exact congrArg (List.cons l) (ih (deliver hear e d l))

theorem desks_visitsTo
    {e : Event}
    {ls : List (Listener L)}
    {before after : List (Listener L × Desk L μ)}
    {l : Listener L}
    {m : Desk L μ}
    (hSplit :
      visitsTo hear e d ls = before ++ (l, m) :: after) :
    m = (before.map Prod.fst).foldl (deliver hear e) d := by
  induction ls generalizing d before with
  | nil =>
      unfold visitsTo at hSplit
      simp at hSplit
  | cons k ls ih =>
      unfold visitsTo at hSplit
      cases before with
      | nil =>
          have hFirst := (List.cons.inj hSplit).1
          exact (Prod.mk.inj hFirst).2.symm
      | cons v before =>
          rcases List.cons.inj hSplit with ⟨rfl, hRest⟩
          have hFound := ih hRest
          exact hFound

theorem regular_roundOf
    (hear : Hearing L μ)
    (d : Desk L μ)
    (e : Event) :
    (d.roundOf hear e).Regular hear where
  listeners := listeners_visitsTo hear e d _
  desks := fun _ _ _ _ hSplit => desks_visitsTo hSplit
  publication := by
    intro b hSink
    have hListeners :
        (d.roundOf hear e).visits.map Prod.fst =
          d.bus.subscribers e.topic :=
      listeners_visitsTo hear e d _
    rw [hListeners]
    exact publish_of_bus hear hSink e

/- There is one round for each event, in their order. -/
theorem events_roundsOf
    (hear : Hearing L μ)
    (d : Desk L μ)
    (events : List Event) :
    (d.roundsOf hear events).map Round.event = events := by
  induction events generalizing d with
  | nil => rfl
  | cons e events ih =>
      exact congrArg (List.cons e) (ih (d.publish hear e))

/- A round begins where the ones before it have ended. -/
theorem start_roundsOf
    {events : List Event}
    {earlier later : List (Round L μ)}
    {r : Round L μ}
    (hSplit : d.roundsOf hear events = earlier ++ r :: later) :
    r.start = d.publishAll hear (earlier.map Round.event) ∧
      r.Regular hear := by
  induction events generalizing d earlier with
  | nil =>
      unfold roundsOf at hSplit
      simp at hSplit
  | cons e events ih =>
      unfold roundsOf at hSplit
      cases earlier with
      | nil =>
          rw [← (List.cons.inj hSplit).1]
          exact ⟨rfl, regular_roundOf hear d e⟩
      | cons s earlier =>
          rcases List.cons.inj hSplit with ⟨rfl, hRest⟩
          have hStart := ih hRest
          exact hStart

------------------------------------------------------------
-- Listeners that look things up
------------------------------------------------------------

/- The call of one listener leaves all that can be seen. -/
theorem mirrors_deliver
    (hReads : hear.Reads)
    (h : t.Mirrors d.tracker)
    (e : Event)
    (l : Listener L) :
    t.Mirrors (deliver hear e d l).tracker := by
  rcases hReads with ⟨deeds, hDoes, hOnly⟩
  have hDeeds : ∀ a ∈ deedsOf deeds e d l, a.Keeps := by
    cases l with
    | log => simp [deedsOf]
    | other name l =>
        intro a hMem
        exact (hOnly l e d a hMem).keeps
  exact (h.afterAll hDeeds).of_core (core_deliver hDoes e d l)

theorem mirrors_visitsTo
    (hReads : hear.Reads)
    (h : t.Mirrors d.tracker)
    (e : Event)
    (ls : List (Listener L)) :
    (∀ v ∈ visitsTo hear e d ls, t.Mirrors v.2.tracker) ∧
      t.Mirrors (ls.foldl (deliver hear e) d).tracker := by
  induction ls generalizing d with
  | nil => exact ⟨by simp [visitsTo], h⟩
  | cons l ls ih =>
      rcases ih (mirrors_deliver hReads h e l) with
        ⟨hVisits, hLast⟩
      refine ⟨?_, hLast⟩
      intro v hMem
      rcases List.mem_cons.mp hMem with rfl | hMem
      · exact h
      · exact hVisits v hMem

theorem mirrors_publish
    (hReads : hear.Reads)
    (h : t.Mirrors d.tracker)
    (e : Event) :
    (∀ v ∈ (d.roundOf hear e).visits, t.Mirrors v.2.tracker) ∧
      t.Mirrors (d.publish hear e).tracker := by
  have hVisits :=
    mirrors_visitsTo hReads h e (d.bus.subscribers e.topic)
  refine ⟨hVisits.1, ?_⟩
  cases hSink : d.sink with
  | bus b =>
      rw [publish_of_bus hear hSink]
      exact hVisits.2
  | recording events =>
      unfold publish
      rw [hSink]
      exact h
  | silent =>
      unfold publish
      rw [hSink]
      exact h

/- At every call, and after the last one, the same is seen. -/
theorem mirrors_publishAll
    (hReads : hear.Reads)
    (h : t.Mirrors d.tracker)
    (events : List Event) :
    (∀ r ∈ d.roundsOf hear events, ∀ v ∈ r.visits,
        t.Mirrors v.2.tracker) ∧
      t.Mirrors (d.publishAll hear events).tracker := by
  induction events generalizing d with
  | nil => exact ⟨by simp [roundsOf], h⟩
  | cons e events ih =>
      rcases mirrors_publish hReads h e with ⟨hFirst, hNext⟩
      rcases ih hNext with ⟨hRest, hLast⟩
      refine ⟨?_, hLast⟩
      intro r hMem
      rcases List.mem_cons.mp hMem with rfl | hMem
      · exact hFirst
      · exact hRest r hMem

------------------------------------------------------------
-- What is read
------------------------------------------------------------

/-
  What is read in a desk `m` while an update of the desk `d`
  is told: the record that the update leaves, and that all
  orders active before it are so still.
-/
structure ReadsBack
    (d : Desk L μ)
    (u : Update)
    (left : Order)
    (m : Desk L μ) : Prop where
  /- Other things may have been read before. -/
  found :
    ∀ reads, (∀ a ∈ reads, Deed.Reads a) →
      ((m.tracker.afterAll reads).fetch u.orderId).2 =
        some left
  still :
    d.tracker.book.isActive u.orderId = true →
      m.tracker.fetchActive u.orderId = some left
  active : m.tracker.summary.active = d.tracker.summary.active
  count : m.tracker.book.activeCount = d.tracker.book.activeCount

/- The record that an update leaves once its events are known. -/
def leftBehind
    (o : Order)
    (u : Update)
    (events : List Event) : Order :=
  if events.any Event.isTerminal then
    (o.apply u).1.announce
  else
    (o.apply u).1

/- An update that tells something has changed a record. -/
theorem respond_of_told
    {o : Order}
    (hear : Hearing L μ)
    (hFound : (d.tracker.fetch u.orderId).2 = some o)
    (hTold : (d.process hear u).2.events ≠ []) :
    (o.respond u d.tracker.clock.now d.tracker.policy).1 =
      leftBehind o u (d.process hear u).2.events := by
  have hReceipt := (Tracker.receive_known hFound).2
  rw [verdict_process, hReceipt] at hTold ⊢
  cases hVerdict :
      (o.respond u d.tracker.clock.now
        d.tracker.policy).2.verdict with
  | applied events =>
      rcases Order.applied_of_respond hVerdict with
        ⟨hApplied, hEvents⟩
      rw [Order.respond_of_applied hApplied hEvents]
      rfl
  | _ =>
      rw [hVerdict] at hTold
      exact absurd rfl hTold

/- What is seen once the record is written is read back. -/
theorem readsBack_of_mirrors
    (hOwn : d.tracker.book.All Order.Own)
    {left : Order}
    {m : Desk L μ}
    (hLeft :
      ((d.received u).tracker.fetch u.orderId).2 = some left)
    (h : (d.received u).tracker.Mirrors m.tracker) :
    d.ReadsBack u left m := by
  have hNames := sameNames_received hOwn.whole u
  have hActive : m.tracker.summary.active =
      d.tracker.summary.active := by
    unfold Tracker.summary Book.activeOrders
    rw [h.active_eq]
    exact hNames.activeOrders_eq
  refine
    { found := ?_, still := ?_, active := hActive, count := ?_ }
  · intro reads hReads
    have hKept := h.afterAll fun a hMem => (hReads a hMem).keeps
    rw [hKept.fetch_eq, hLeft]
  · intro hBefore
    rw [← hNames.active, Book.isActive_iff] at hBefore
    rcases hBefore with ⟨p, hStill⟩
    have hFetched :
        ((d.received u).tracker.fetch u.orderId).2 = some p :=
      congrArg Prod.snd (Book.find_of_active hStill _)
    rw [hLeft] at hFetched
    unfold Tracker.fetchActive
    rw [h.active_eq, hStill, Option.some.inj hFetched]
  · have hLength := congrArg List.length hActive
    change
      (m.tracker.book.active.toList.map Prod.fst).length =
        (d.tracker.book.active.toList.map Prod.fst).length
          at hLength
    rw [List.length_map, List.length_map,
      Std.ExtTreeMap.length_toList,
      Std.ExtTreeMap.length_toList] at hLength
    exact hLength

/- Nothing but this record is found under the name later. -/
theorem fetch_process_of_mirrors
    {left : Order}
    (hLeft :
      ((d.received u).tracker.fetch u.orderId).2 = some left)
    (h : (d.received u).tracker.Mirrors (d.heard hear u).tracker)
    {p : Order}
    (hFetched :
      ((d.process hear u).1.tracker.fetch u.orderId).2 =
        some p) :
    p = left := by
  rw [← h.fetch_eq] at hLeft
  rw [process_eq] at hFetched
  split at hFetched
  · let b := (d.heard hear u).tracker.book
    let now := (d.heard hear u).tracker.now
    have hBook :=
      Tracker.book_of_core
        ((d.heard hear u).tracker.core_stop u.orderId).1
    change
      ((((d.heard hear u).tracker.stop
        u.orderId).1.book.find _ u.orderId).2 = some p)
          at hFetched
    rw [hBook] at hFetched
    have hBefore : b.latest? u.orderId = some left :=
      (Book.latest?_of_find h.whole hLeft).1
    have hAfter :
        (b.stop now u.orderId).1.latest? u.orderId = some p :=
      (Book.latest?_of_find
        (Book.whole_stop h.whole now u.orderId) hFetched).1
    rcases (Book.fades_stop h.whole now u.orderId).latest
        u.orderId with hNone | hSame
    · rw [hNone] at hAfter
      contradiction
    · rw [hSame, hBefore] at hAfter
      exact (Option.some.inj hAfter).symm
  · rw [hLeft] at hFetched
    exact (Option.some.inj hFetched).symm

/- Events that are only kept are kept in their order. -/
theorem sink_publishAll
    (hear : Hearing L μ)
    {told : List Event}
    (hSink : d.sink = .recording told)
    (events : List Event) :
    (d.publishAll hear events).sink =
      .recording (told ++ events) := by
  induction events generalizing d told with
  | nil => rw [List.append_nil]; exact hSink
  | cons e events ih =>
      have hNext :
          (d.publish hear e).sink = .recording (told ++ [e]) := by
        unfold publish
        rw [hSink]
      have hRest := ih hNext
      rw [List.append_assoc] at hRest
      exact hRest

/-
  An update is told in rounds, one for each of its events, to
  all who have been subscribed when the round begins.  As
  long as listeners only look things up, each of them finds
  the record as the update leaves it, marked if its end is
  among the events, and in its place among the active orders
  if it has been there.  The desk is so still after the last
  call, and only then the order is retired; if the record is
  found afterwards, it is the same.
-/
theorem read_while_told
    (hReads : hear.Reads)
    (hReached : d.tracker.Reached)
    (u : Update) :
    let d' := (d.process hear u).1
    let events := (d.process hear u).2.events
    let rounds := d.rounds hear u
    let last := (d.received u).publishAll hear events
    rounds.map Round.event = events ∧
    (∀ earlier r later, rounds = earlier ++ r :: later →
      r.start =
          (d.received u).publishAll hear
            (earlier.map Round.event) ∧
        r.Regular hear) ∧
    (∀ told, d.sink = .recording told →
      d'.sink = .recording (told ++ events)) ∧
    (events ≠ [] →
      ∃ o,
        (d.tracker.fetch u.orderId).2 = some o ∧
        (∀ r ∈ rounds, ∀ v ∈ r.visits,
          d.ReadsBack u (leftBehind o u events) v.2) ∧
        d.ReadsBack u (leftBehind o u events) last ∧
        ∀ p, (d'.tracker.fetch u.orderId).2 = some p →
          p = leftBehind o u events) ∧
    d' =
      if (d.tracker.receive u).2.retire then
        last.withTracker (last.tracker.stop u.orderId).1
      else
        last := by
  intro d' events rounds last
  have hOwn := hReached.own
  have hVerdict := verdict_process hear d u
  have hEvents :
      (d.tracker.receive u).2.verdict.events = events := by
    rw [← hVerdict]
  have hLast : d.heard hear u = last := by
    unfold heard
    rw [hEvents]
  have hRounds : rounds = (d.received u).roundsOf hear events := by
    unfold rounds Desk.rounds
    rw [hEvents]
  have hProcess : d' = _ := congrArg Prod.fst (process_eq hear d u)
  rw [hLast] at hProcess
  refine ⟨?_, ?_, ?_, ?_, hProcess⟩
  · rw [hRounds]
    exact events_roundsOf hear _ events
  · intro earlier r later hSplit
    rw [hRounds] at hSplit
    exact start_roundsOf hSplit
  · intro told hSink
    have hReceived : (d.received u).sink = .recording told := hSink
    have hKept : last.sink = .recording (told ++ events) :=
      sink_publishAll hear hReceived events
    rw [hProcess]
    split
    · exact hKept
    · exact hKept
  · intro hTold
    cases hFound :
        (d.tracker.book.find d.tracker.now u.orderId).2 with
    | none =>
        have hNone : events = [] := by
          unfold events
          rw [(process_unknown hear hFound).2]
          rfl
        exact absurd hNone hTold
    | some o =>
        have hLeft := fetch_received hOwn hFound
        rw [respond_of_told hear hFound hTold] at hLeft
        have hWhole : (d.received u).tracker.book.Whole :=
          (lasting_received Book.lasting_own hOwn u).whole
        rcases mirrors_publishAll hReads
            (Tracker.Mirrors.refl hWhole) events with
          ⟨hVisits, hAfter⟩
        refine ⟨o, hFound, ?_, ?_, ?_⟩
        · intro r hRound v hVisit
          rw [hRounds] at hRound
          exact
            readsBack_of_mirrors hOwn hLeft
              (hVisits r hRound v hVisit)
        · exact readsBack_of_mirrors hOwn hLeft hAfter
        · intro p hFetched
          have hHeard :
              (d.received u).tracker.Mirrors
                (d.heard hear u).tracker := by
            rw [hLast]
            exact hAfter
          exact fetch_process_of_mirrors hLeft hHeard hFetched

/- A listener that notes down the order that it hears of. -/
def notingDown : Hearing Unit (List Order) := fun _ e d =>
  let (tracker, found?) := d.tracker.fetch e.orderId
  ({ d with tracker, memory := d.memory ++ found?.toList },
    .done)

theorem does_notingDown :
    notingDown.Does fun _ e _ => [.fetch e.orderId] :=
  fun _ _ _ => rfl

/-
  A fill that completes an order is told in two rounds, to the
  log and to a listener that notes down what it reads.  Both
  find the order filled, with its end marked, and active; it
  is retired when they have heard of it.  So this is what the
  listener has noted, once for each event.
-/
theorem read_while_told_filled :
    let bus :=
      (Bus.subscribeAll (Bus.subscribeAll ∅ .log).1
        (.other "b" ())).1
    let desk : Desk Unit (List Order) :=
      ((opening .once 1 10 default (.bus bus) []).run notingDown
        [.start (.ofRequest Order.sampleRequest)]).1
    let u := Update.fill Order.sampleFill
    let rounds := desk.rounds notingDown u
    let d' := (desk.process notingDown u).1
    (rounds.map fun r => (r.event.topic, r.visits.map Prod.fst)) =
        [(.filled, [.log, .other "b" ()]),
          (.completed .buy, [.log, .other "b" ()])] ∧
      (∃ left : Order,
        left.status = .filled ∧
        left.announced = true ∧
        (∀ r ∈ rounds, ∀ v ∈ r.visits,
          desk.ReadsBack u left v.2 ∧
            v.2.tracker.fetchActive "a" = some left) ∧
        desk.memory = [] ∧
        d'.memory = [left, left]) ∧
      d'.tracker.fetchActive "a" = none := by
  intro bus desk u rounds d'
  have hReads : notingDown.Reads :=
    ⟨_, does_notingDown, by simp [Deed.Reads]⟩
  have hReached : desk.tracker.Reached :=
    reached_run does_notingDown .once 1 10 default (.bus bus) []
      _
  have hTold := read_while_told hReads hReached u
  rcases hTold.2.2.2.1 (by decide +kernel) with
    ⟨o, hFound, hVisits, -, -⟩
  have hLeft :
      ((desk.tracker.fetch "a").2.map fun o =>
        let left :=
          leftBehind o u (desk.process notingDown u).2.events
        (left.status, left.announced, [left, left])) =
          some (.filled, true, d'.memory) := by
    decide +kernel
  have hSame : (desk.tracker.fetch "a").2 = some o := hFound
  rw [hSame] at hLeft
  rcases Prod.mk.inj (Option.some.inj hLeft) with
    ⟨hFilled, hRest⟩
  rcases Prod.mk.inj hRest with ⟨hAnnounced, hNoted⟩
  refine
    ⟨by decide +kernel,
      ⟨_, hFilled, hAnnounced, ?_, by decide +kernel,
        hNoted.symm⟩,
      by decide +kernel⟩
  intro r hRound v hVisit
  have hBack := hVisits r hRound v hVisit
  exact ⟨hBack, hBack.still (by decide +kernel)⟩

end Desk

end OrderWatch
