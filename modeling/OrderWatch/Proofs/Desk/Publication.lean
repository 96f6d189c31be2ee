import OrderWatch.Desk
import OrderWatch.Proofs.Bus

/-
  Publications on a bus whose listeners subscribe others.

  A history of a bus is a list of calls: subscriptions are
  made and ended, events are published.  While an event is
  delivered, the listeners may make and end subscriptions as
  well, may fail and may panic.  The log of a history tells
  what has been changed, with the replies, and who has been
  called for which event.  All changes together are a single
  list, and an event is delivered to those who stand by the
  part of this list that was there when its publication
  began; what is changed during the deliveries shows in the
  next publication only.

  Main declarations:
    * `Bus.Call`, `Bus.Delivery`, `Bus.Episode`
    * `Hearing.Changes`
    * `Desk.log`, `Bus.Episode.redo`
    * `Desk.OnRecord`, `Desk.Played`
    * `Desk.publications_orderly`
-/

namespace OrderWatch

variable {L μ : Type}

------------------------------------------------------------
-- Histories
------------------------------------------------------------

namespace Bus

/- What can be asked of a bus. -/
inductive Call (L : Type) where
  | change (c : Change (Listener L))
  | publish (e : Event)
  | publishAll (events : List Event)

/- Changes with the replies to them. -/
abbrev Records (L : Type) :=
  List (Change (Listener L) × Reply)

/- The call of a listener, from its beginning to its end. -/
structure Delivery (L : Type) where
  listener : Listener L
  /- What the listener has changed meanwhile. -/
  records : Records L
  ending : Ending
deriving DecidableEq

def Delivery.isFailure (x : Delivery L) : Bool :=
  match x.ending with
  | .done => false
  | .failed _ | .panicked => true

/- What is noted in the log of a bus. -/
inductive Episode (L : Type) where
  | change (c : Change (Listener L)) (reply : Reply)
  | publication (e : Event) (deliveries : List (Delivery L))
deriving DecidableEq

namespace Episode

/- The changes of an episode. -/
def records : Episode L → Records L
  | .change c reply => [(c, reply)]
  | .publication _ deliveries =>
      deliveries.flatMap Delivery.records

/- How many listeners of a topic have come to no good end. -/
def failures (topic : Topic) : Episode L → Nat
  | .change _ _ => 0
  | .publication e deliveries =>
      if e.topic = topic then
        deliveries.countP Delivery.isFailure
      else
        0

end Episode

end Bus

/- How many failures of a topic have been counted. -/
def Desk.failures (d : Desk L μ) (topic : Topic) : Nat :=
  d.tracker.journal.total (.listenerFailures topic)

/-
  Listeners that do certain changes when they are called.
  They may do anything else as well, but they leave it to the
  bus to count failures.
-/
structure Hearing.Changes
    (hear : Hearing L μ)
    (changes :
      L → Event → Desk L μ → List (Bus.Change (Listener L))) :
    Prop where
  sink_eq :
    ∀ l e d b, d.sink = .bus b →
      (hear l e d).1.sink = .bus (b.changeAll (changes l e d))
  failures_eq :
    ∀ l e d topic,
      (hear l e d).1.failures topic = d.failures topic

namespace Desk

/- The bus on which a desk publishes, if there is one. -/
def bus (d : Desk L μ) : Bus (Listener L) :=
  match d.sink with
  | .bus b => b
  | .recording _ | .silent => ∅

/- A bus calls the subscribers of a topic in their order. -/
theorem publish_of_bus
    {b : Bus (Listener L)}
    {d : Desk L μ}
    (hear : Hearing L μ)
    (hSink : d.sink = .bus b)
    (e : Event) :
    d.publish hear e =
      (d.bus.subscribers e.topic).foldl (deliver hear e) d := by
  unfold publish bus
  rw [hSink]

def changeBus
    (d : Desk L μ)
    (c : Bus.Change (Listener L)) : Desk L μ :=
  { d with sink := .bus (d.bus.change c).1 }

/- A desk after a call. -/
def call
    (hear : Hearing L μ)
    (d : Desk L μ) : Bus.Call L → Desk L μ
  | .change c => d.changeBus c
  | .publish e => d.publish hear e
  | .publishAll events => d.publishAll hear events

/- A desk after a history. -/
def callAll
    (hear : Hearing L μ)
    (d : Desk L μ)
    (calls : List (Bus.Call L)) : Desk L μ :=
  calls.foldl (call hear) d

section Logs

variable (hear : Hearing L μ)
variable
  (changes :
    L → Event → Desk L μ → List (Bus.Change (Listener L)))

/- What comes of the call of a listener. -/
def deliveryTo
    (e : Event)
    (d : Desk L μ) : Listener L → Bus.Delivery L
  | .log => ⟨.log, [], .done⟩
  | .other name l =>
      ⟨.other name l, d.bus.records (changes l e d),
        (hear l e d).2⟩

/- What comes of the calls of some listeners. -/
def deliveriesTo
    (e : Event) :
    Desk L μ → List (Listener L) → List (Bus.Delivery L)
  | _, [] => []
  | d, l :: ls =>
      deliveryTo hear changes e d l ::
        deliveriesTo e (deliver hear e d l) ls

/- The publication of an event. -/
def publicationOf (d : Desk L μ) (e : Event) : Bus.Episode L :=
  .publication e
    (deliveriesTo hear changes e d (d.bus.subscribers e.topic))

/- The publications of some events. -/
def publicationsOf :
    Desk L μ → List Event → List (Bus.Episode L)
  | _, [] => []
  | d, e :: events =>
      d.publicationOf hear changes e ::
        publicationsOf (d.publish hear e) events

/- The episodes of a call. -/
def episodesOf (d : Desk L μ) : Bus.Call L → List (Bus.Episode L)
  | .change c => [.change c (d.bus.change c).2]
  | .publish e => [d.publicationOf hear changes e]
  | .publishAll events => publicationsOf hear changes d events

/- The log of a history. -/
def log : Desk L μ → List (Bus.Call L) → List (Bus.Episode L)
  | _, [] => []
  | d, c :: calls =>
      d.episodesOf hear changes c ++ log (d.call hear c) calls

end Logs

end Desk

/- Do again what an episode tells. -/
def Bus.Episode.redo
    (hear : Hearing L μ)
    (d : Desk L μ) : Bus.Episode L → Desk L μ
  | .change c _ => d.changeBus c
  | .publication e deliveries =>
      (deliveries.map Bus.Delivery.listener).foldl
        (Desk.deliver hear e) d

------------------------------------------------------------
-- Deliveries
------------------------------------------------------------

/- A step of a counter adds to its total, and to no other. -/
theorem Journal.total_count
    (j : Journal)
    (c : Counter)
    (n : Nat)
    (c' : Counter) :
    (j.count c n).total c' =
      j.total c' + if c = c' then n else 0 := by
  unfold Journal.count
  split
  · rename_i hNone
    simp [hNone]
  · unfold Journal.note Journal.total
    rw [List.foldr_cons]
    change (if c = c' then n + _ else _) = _
    split
    · exact Nat.add_comm _ _
    · rfl

namespace Desk

variable {hear : Hearing L μ} {d : Desk L μ} {e : Event}
variable
  {changes :
    L → Event → Desk L μ → List (Bus.Change (Listener L))}

/- The bus of a desk has come about by certain changes. -/
def OnRecord (rs : Bus.Records L) (d : Desk L μ) : Prop :=
  ∃ cs, rs = Bus.records ∅ cs ∧ d.sink = .bus (Bus.changeAll ∅ cs)

theorem OnRecord.reflects
    {rs : Bus.Records L}
    (hRecord : d.OnRecord rs) :
    d.sink = .bus d.bus ∧ d.bus.Reflects rs := by
  rcases hRecord with ⟨cs, rfl, hSink⟩
  have hBus : d.bus = Bus.changeAll ∅ cs := by
    unfold bus
    rw [hSink]
  rw [hBus]
  exact ⟨hSink, Bus.reflects_empty.records cs⟩

/- More changes are made to the bus. -/
theorem OnRecord.changeAll
    {rs : Bus.Records L}
    {d' : Desk L μ}
    (hRecord : d.OnRecord rs)
    (cs : List (Bus.Change (Listener L)))
    (hSink : d'.sink = .bus (d.bus.changeAll cs)) :
    d'.OnRecord (rs ++ d.bus.records cs) := by
  have hBefore := hRecord.reflects.1
  rcases hRecord with ⟨made, rfl, hMade⟩
  rw [hMade] at hBefore
  rw [← Sink.bus.inj hBefore] at hSink ⊢
  refine ⟨made ++ cs, ?_, ?_⟩
  · rw [Bus.records_append]
  · rw [Bus.changeAll_append]
    exact hSink

theorem sink_noteFailure
    (d : Desk L μ)
    (name : String)
    (e : Event)
    (ending : Ending) :
    (d.noteFailure name e ending).sink = d.sink := by
  unfold noteFailure
  cases ending <;> rfl

/- A failure is counted once, under the topic of the event. -/
theorem failures_noteFailure
    (d : Desk L μ)
    (name : String)
    (e : Event)
    (x : Bus.Delivery L)
    (topic : Topic) :
    (d.noteFailure name e x.ending).failures topic =
      d.failures topic +
        if e.topic = topic then
          [x].countP Bus.Delivery.isFailure
        else
          0 := by
  have hCounted :
      ∀ level text details,
        ({ d with
            tracker :=
              (d.tracker.say level text details).count
                (.listenerFailures e.topic) 1 }).failures topic =
          d.failures topic + if e.topic = topic then 1 else 0 := by
    intro level text details
    have hTotal :=
      (d.tracker.say level text details).journal.total_count
        (.listenerFailures e.topic) 1 (.listenerFailures topic)
    simp only [Counter.listenerFailures.injEq] at hTotal
    exact hTotal
  rcases x with ⟨_, _, ending⟩
  cases ending with
  | done => simp [noteFailure, Bus.Delivery.isFailure]
  | failed message => exact hCounted _ _ _
  | panicked => exact hCounted _ _ _

/- One listener is called. -/
theorem deliver_onRecord
    (hChanges : hear.Changes changes)
    {rs : Bus.Records L}
    (hRecord : d.OnRecord rs)
    (e : Event)
    (l : Listener L) :
    let x := deliveryTo hear changes e d l
    x.listener = l ∧
      (deliver hear e d l).OnRecord (rs ++ x.records) ∧
      ∀ topic,
        (deliver hear e d l).failures topic =
          d.failures topic +
            if e.topic = topic then
              [x].countP Bus.Delivery.isFailure
            else
              0 := by
  intro x
  have hSink := hRecord.reflects.1
  cases l with
  | log =>
      refine ⟨rfl, ?_, ?_⟩
      · exact hRecord.changeAll [] hSink
      · intro topic
        have hNone : [x].countP Bus.Delivery.isFailure = 0 := rfl
        rw [hNone, ite_self]
        rfl
  | other name l =>
      have hHeard := hChanges.sink_eq l e d _ hSink
      refine ⟨rfl, ?_, ?_⟩
      · apply hRecord.changeAll
        rw [← hHeard]
        exact sink_noteFailure _ _ _ _
      · intro topic
        have hNoted :=
          failures_noteFailure (hear l e d).1 name e x topic
        rw [hChanges.failures_eq] at hNoted
        exact hNoted

/- Some listeners are called, whatever each of them does. -/
theorem deliver_all_onRecord
    (hChanges : hear.Changes changes)
    {rs : Bus.Records L}
    (hRecord : d.OnRecord rs)
    (e : Event)
    (ls : List (Listener L)) :
    let xs := deliveriesTo hear changes e d ls
    xs.map Bus.Delivery.listener = ls ∧
      (ls.foldl (deliver hear e) d).OnRecord
        (rs ++ xs.flatMap Bus.Delivery.records) ∧
      ∀ topic,
        (ls.foldl (deliver hear e) d).failures topic =
          d.failures topic +
            if e.topic = topic then
              xs.countP Bus.Delivery.isFailure
            else
              0 := by
  induction ls generalizing d rs with
  | nil =>
      refine ⟨rfl, ?_, ?_⟩
      · simpa [deliveriesTo] using hRecord
      · simp [deliveriesTo]
  | cons l ls ih =>
      rcases deliver_onRecord hChanges hRecord e l with
        ⟨hListener, hNext, hFailure⟩
      rcases ih hNext with ⟨hListeners, hLast, hFailures⟩
      intro xs
      refine ⟨?_, ?_, ?_⟩
      · exact congrArg₂ List.cons hListener hListeners
      · rw [List.append_assoc] at hLast
        exact hLast
      · intro topic
        have hCount :
            xs.countP Bus.Delivery.isFailure =
              [deliveryTo hear changes e d l].countP
                  Bus.Delivery.isFailure +
                (deliveriesTo hear changes e (deliver hear e d l)
                  ls).countP Bus.Delivery.isFailure := by
          rw [← List.countP_append]
          rfl
        rw [hCount]
        have hTotal := hFailures topic
        rw [hFailure] at hTotal
        rw [List.foldl_cons, hTotal]
        split
        · exact Nat.add_assoc _ _ _
        · rfl

------------------------------------------------------------
-- Logs
------------------------------------------------------------

/-
  Every event in a log has been delivered to those who stand
  by the changes before, each once and in their order.
-/
def Called
    (rs : Bus.Records L)
    (log : List (Bus.Episode L)) : Prop :=
  ∀ before e xs after,
    log = before ++ .publication e xs :: after →
    xs.map Bus.Delivery.listener =
      (Bus.standing e.topic
        (rs ++ before.flatMap Bus.Episode.records)).map Prod.snd

theorem called_append
    {rs : Bus.Records L}
    {log later : List (Bus.Episode L)}
    (hFirst : Called rs log)
    (hLater :
      Called (rs ++ log.flatMap Bus.Episode.records) later) :
    Called rs (log ++ later) := by
  intro before e xs after hSplit
  rcases List.append_eq_append_iff.mp hSplit with
    ⟨rest, rfl, hRest⟩ | ⟨rest, rfl, hRest⟩
  · rw [List.flatMap_append, ← List.append_assoc]
    exact hLater rest e xs after hRest
  · cases rest with
    | nil =>
        rw [List.append_nil] at hLater
        have hOwn := hLater [] e xs after hRest.symm
        rw [List.flatMap_nil, List.append_nil] at hOwn
        exact hOwn
    | cons episode rest =>
        rw [List.cons_append] at hRest
        rcases List.cons.inj hRest with ⟨rfl, _⟩
        exact hFirst before e xs rest rfl

/-
  What a log tells of the way from one desk to another, if
  some changes have been made before.
-/
structure Played
    (hear : Hearing L μ)
    (rs : Bus.Records L)
    (d : Desk L μ)
    (log : List (Bus.Episode L))
    (d' : Desk L μ) : Prop where
  redone : d' = log.foldl (Bus.Episode.redo hear) d
  called : Called rs log
  record : d'.OnRecord (rs ++ log.flatMap Bus.Episode.records)
  counted :
    ∀ topic,
      d'.failures topic =
        d.failures topic +
          (log.map (Bus.Episode.failures topic)).sum

namespace Played

variable {rs : Bus.Records L} {log later : List (Bus.Episode L)}
variable {d' d'' : Desk L μ}

theorem nil
    (hRecord : d.OnRecord rs) :
    Played hear rs d [] d where
  redone := rfl
  called := by
    intro before e xs after hSplit
    simp at hSplit
  record := by
    rw [List.flatMap_nil, List.append_nil]
    exact hRecord
  counted := fun _ => rfl

/- One part of a history after the other. -/
theorem append
    (hFirst : Played hear rs d log d')
    (hLater :
      Played hear (rs ++ log.flatMap Bus.Episode.records) d'
        later d'') :
    Played hear rs d (log ++ later) d'' where
  redone := by
    rw [List.foldl_append, ← hFirst.redone]
    exact hLater.redone
  called := called_append hFirst.called hLater.called
  record := by
    rw [List.flatMap_append, ← List.append_assoc]
    exact hLater.record
  counted := by
    intro topic
    rw [List.map_append, List.sum_append, ← Nat.add_assoc,
      ← hFirst.counted]
    exact hLater.counted topic

/- A history of one episode. -/
theorem one
    {episode : Bus.Episode L}
    (hRedone : d' = episode.redo hear d)
    (hCalled :
      ∀ e xs, episode = .publication e xs →
        xs.map Bus.Delivery.listener =
          (Bus.standing e.topic rs).map Prod.snd)
    (hRecord : d'.OnRecord (rs ++ episode.records))
    (hCounted :
      ∀ topic,
        d'.failures topic =
          d.failures topic + episode.failures topic) :
    Played hear rs d [episode] d' where
  redone := hRedone
  called := by
    intro before e xs after hSplit
    cases before with
    | nil =>
        rw [List.flatMap_nil, List.append_nil]
        exact hCalled e xs (List.cons.inj hSplit).1
    | cons first rest => simp at hSplit
  record := by
    rw [List.flatMap_singleton]
    exact hRecord
  counted := by
    intro topic
    rw [List.map_singleton, List.sum_singleton]
    exact hCounted topic

/- A change is made by a caller. -/
theorem change
    (hRecord : d.OnRecord rs)
    (c : Bus.Change (Listener L)) :
    Played hear rs d [.change c (d.bus.change c).2]
      (d.changeBus c) := by
  apply one
  · rfl
  · intro e xs hOther
    contradiction
  · exact hRecord.changeAll [c] rfl
  · exact fun _ => rfl

/- An event is published. -/
theorem publish
    (hChanges : hear.Changes changes)
    (hRecord : d.OnRecord rs)
    (e : Event) :
    Played hear rs d [d.publicationOf hear changes e]
      (d.publish hear e) := by
  rcases hRecord.reflects with ⟨hSink, hReflects⟩
  have hPublished := publish_of_bus hear hSink e
  rcases deliver_all_onRecord hChanges hRecord e
      (d.bus.subscribers e.topic) with
    ⟨hListeners, hLast, hFailures⟩
  rw [← hPublished] at hLast hFailures
  apply one
  · rw [hPublished]
    exact
      (congrArg (List.foldl (deliver hear e) d) hListeners).symm
  · intro e' xs hOne
    rcases Bus.Episode.publication.inj hOne with ⟨rfl, rfl⟩
    rw [hListeners, Bus.subscribers_eq_numbered,
      hReflects.numbered]
  · exact hLast
  · exact hFailures

/- Events are published one after the other. -/
theorem publishAll
    (hChanges : hear.Changes changes)
    (hRecord : d.OnRecord rs)
    (events : List Event) :
    Played hear rs d (publicationsOf hear changes d events)
      (d.publishAll hear events) := by
  induction events generalizing d rs with
  | nil => exact nil hRecord
  | cons e events ih =>
      have hFirst := publish hChanges hRecord e
      exact hFirst.append (ih hFirst.record)

theorem call
    (hChanges : hear.Changes changes)
    (hRecord : d.OnRecord rs)
    (c : Bus.Call L) :
    Played hear rs d (d.episodesOf hear changes c)
      (d.call hear c) := by
  cases c with
  | change c => exact change hRecord c
  | publish e => exact publish hChanges hRecord e
  | publishAll events => exact publishAll hChanges hRecord events

/- A whole history is played as its log tells. -/
theorem callAll
    (hChanges : hear.Changes changes)
    (hRecord : d.OnRecord rs)
    (calls : List (Bus.Call L)) :
    Played hear rs d (d.log hear changes calls)
      (d.callAll hear calls) := by
  induction calls generalizing d rs with
  | nil => exact nil hRecord
  | cons c calls ih =>
      have hFirst := call hChanges hRecord c
      exact hFirst.append (ih hFirst.record)

end Played

/-
  The history of a bus, whatever its listeners do.  What they
  and the callers change is one list of changes with replies.
    * The log tells what has happened: to do again what it
      tells leads to the same desk.
    * An event is delivered to the listeners that have been
      subscribed to its topic before its publication and not
      been ended since, in the order of their subscriptions.
    * Every reply is the one that follows from the changes
      before: a new number, or what has been ended.
    * After any number of the changes, those subscribed are
      those that have been added and not been ended since.
    * One failure has been counted for every listener that
      has failed or panicked.
-/
theorem publications_orderly
    (hChanges : hear.Changes changes)
    (d : Desk L μ)
    (hSink : d.sink = .bus ∅)
    (calls : List (Bus.Call L)) :
    let log := d.log hear changes calls
    let records := log.flatMap Bus.Episode.records
    let d' := d.callAll hear calls
    d' = log.foldl (Bus.Episode.redo hear) d ∧
      (∀ before e xs after,
        log = before ++ .publication e xs :: after →
        xs.map Bus.Delivery.listener =
          (Bus.standing e.topic
            (before.flatMap Bus.Episode.records)).map
              Prod.snd) ∧
      (∀ before c reply after,
        records = before ++ (c, reply) :: after →
        reply = Bus.replyTo before c) ∧
      (∃ cs,
        records = Bus.records ∅ cs ∧
        d'.sink = .bus (Bus.changeAll ∅ cs) ∧
        ∀ earlier later topic, cs = earlier ++ later →
          (Bus.changeAll ∅ earlier).numbered topic =
            Bus.standing topic (Bus.records ∅ earlier)) ∧
      ∀ topic,
        d'.failures topic =
          d.failures topic +
            (log.map (Bus.Episode.failures topic)).sum := by
  intro log records d'
  have hRecord : d.OnRecord [] := ⟨[], rfl, hSink⟩
  have hPlayed : Played hear [] d log d' :=
    .callAll hChanges hRecord calls
  refine
    ⟨hPlayed.redone, hPlayed.called,
      hPlayed.record.reflects.2.replies, ?_, hPlayed.counted⟩
  rcases hPlayed.record with ⟨cs, hRecords, hLast⟩
  refine ⟨cs, hRecords, hLast, ?_⟩
  intro earlier later topic _
  exact (Bus.reflects_empty.records earlier).numbered topic

/- What a listener does that hands its task over and panics. -/
def handsOver : Bool → Event → Desk Bool Unit →
    List (Bus.Change (Listener Bool))
  | true, e, _ =>
      [.unsubscribeAll 0, .subscribe e.topic (.other "c" false)]
  | false, _, _ => []

/- The one that takes over fails. -/
def handingOver : Hearing Bool Unit := fun l e d =>
  let d' : Desk Bool Unit :=
    { d with
      sink :=
        match d.sink with
        | .bus b => .bus (b.changeAll (handsOver l e d))
        | s => s }
  (d', if l then .panicked else .failed "no")

theorem changes_handingOver :
    handingOver.Changes handsOver where
  sink_eq := by
    intro l e d b hSink
    unfold handingOver
    simp only [hSink]
  failures_eq := fun _ _ _ _ => rfl

/- Two events of one topic are published at once. -/
def cancelledAtOnce : List (Bus.Call Bool) :=
  [.change (.subscribeAll (.other "b" true)),
    .publishAll [.cancelled default, .cancelled default]]

/-
  The first event goes to the listener that hands its task
  over, and the second one to the listener that takes it.
-/
theorem publications_orderly_handedOver :
    let d : Desk Bool Unit :=
      ⟨.opening .once 1 10 default, .bus ∅, ()⟩
    let log := d.log handingOver handsOver cancelledAtOnce
    let subscribed : Bus.Episode Bool :=
      .change (.subscribeAll (.other "b" true)) (.subscribed 0)
    let first : Bus.Delivery Bool :=
      ⟨.other "b" true,
        [(.unsubscribeAll 0, .endedAll 7),
          (.subscribe .cancelled (.other "c" false),
            .subscribed 1)],
        .panicked⟩
    let second : Bus.Delivery Bool :=
      ⟨.other "c" false, [], .failed "no"⟩
    log =
        [subscribed, .publication (.cancelled default) [first],
          .publication (.cancelled default) [second]] ∧
      [second].map Bus.Delivery.listener =
        (Bus.standing .cancelled
          (subscribed.records ++ first.records)).map Prod.snd ∧
      (d.callAll handingOver cancelledAtOnce).failures
        .cancelled = 2 := by
  intro d log subscribed first second
  have hLog :
      log =
        [subscribed, .publication (.cancelled default) [first],
          .publication (.cancelled default) [second]] := by
    decide +kernel
  rcases publications_orderly changes_handingOver d rfl
      cancelledAtOnce with ⟨_, hCalled, _, _, hCounted⟩
  have hSecond :=
    hCalled
      [subscribed, .publication (.cancelled default) [first]]
      (.cancelled default) [second] [] hLog
  have hFailures :=
    (hCounted .cancelled).trans
      (by decide +kernel : _ = 2)
  exact ⟨hLog, hSecond, hFailures⟩

end Desk

end OrderWatch
