import OrderWatch.Proofs.Desk.Callbacks

/-
  The counters of a tracker as a ledger of what happened.

  Every happening moves certain counters, each by one, and
  nothing else moves them: a counter stands at the number of
  times that it was moved.  So the counters of a tracker can
  be told from the answers to updates and the ends of
  deliveries alone, wherever these have been made.

  Main declarations:
    * `Verdict.moves`, `Happening.moves`
    * `Tracker.total_receive`
    * `Desk.total_attendAll`
    * `Journal.Reconciles`
    * `Desk.counters_reconcile`
-/

namespace OrderWatch

------------------------------------------------------------
-- What moves the counters
------------------------------------------------------------

/- The short name of the reason for which it was refused. -/
def Dismissal.code? : Dismissal → Option String
  | .invalidTransition _ here there =>
      some (Refusal.invalidTransition here there).code
  | .rejectedUpdate _ _ reason => some reason.code
  | .unknownOrder _ | .staleUpdate _ _ _ _ => none

/- The counter that a dismissal moves. -/
def Dismissal.counter
    (channel : Channel) : Dismissal → Counter
  | .unknownOrder _ => .unknownOrders channel
  | .staleUpdate _ _ _ _ => .staleUpdates channel
  | .invalidTransition _ here there =>
      .rejectedUpdates channel
        (Refusal.invalidTransition here there).code
  | .rejectedUpdate _ _ reason =>
      .rejectedUpdates channel reason.code

theorem Dismissal.counter_ofRefusal
    (id : OrderId)
    (channel : Channel)
    (reason : Refusal) :
    (ofRefusal id channel reason).counter channel =
      .rejectedUpdates channel reason.code := by
  cases reason <;> rfl

/- The counters that an answer moves, each by one. -/
def Verdict.moves (channel : Channel) : Verdict → List Counter
  | .applied events =>
      events.map fun e => .eventsEmitted e.topic
  | .ignored why => [why.counter channel]
  | .unchanged | .broken _ => []

/- Whether a listener has not come to its end. -/
def Ending.isFailure : Ending → Bool
  | .done => false
  | .failed _ | .panicked => true

/- The counters that a happening moves, each by one. -/
def Happening.moves : Happening → List Counter
  | .answered channel v => v.moves channel
  | .called topic ending =>
      if ending.isFailure then [.listenerFailures topic] else []
  | .retired _ _ dropped | .purged dropped =>
      List.replicate dropped .cacheEvictions
  | .reclaimed _ => []

/- How often some happenings have moved a counter. -/
def moved (xs : List Happening) (c : Counter) : Nat :=
  (xs.flatMap Happening.moves).count c

theorem moved_append
    (xs ys : List Happening)
    (c : Counter) :
    moved (xs ++ ys) c = moved xs c + moved ys c := by
  unfold moved
  rw [List.flatMap_append, List.count_append]

theorem moved_singleton
    (x : Happening)
    (c : Counter) :
    moved [x] c = x.moves.count c := by
  unfold moved
  rw [List.flatMap_singleton]

/- Happenings that move the counter once if at all. -/
theorem moved_eq_countP
    {p : Happening → Bool}
    {c : Counter}
    (hOnce :
      ∀ x : Happening,
        x.moves.count c = if p x then 1 else 0)
    (xs : List Happening) :
    moved xs c = xs.countP p := by
  induction xs with
  | nil => rfl
  | cons x xs ih =>
      rw [← List.singleton_append, moved_append, ih,
        moved_singleton, hOnce, List.countP_append,
        List.countP_singleton]

------------------------------------------------------------
-- Steps of a tracker
------------------------------------------------------------

/- Counters that go up by one, as many as in a list. -/
theorem Journal.total_count_one
    (j : Journal)
    (c c' : Counter) :
    (j.count c 1).total c' = j.total c' + [c].count c' := by
  rw [total_count, List.count_singleton]
  simp only [beq_iff_eq]

namespace Tracker

variable {t : Tracker}

/- Every event of an update is counted under its topic. -/
theorem total_announce
    (t : Tracker)
    (o : Order)
    (events : List Event)
    (c : Counter) :
    (t.announce o events).journal.total c =
      t.journal.total c +
        (events.map fun e =>
          Counter.eventsEmitted e.topic).count c := by
  unfold announce
  induction events generalizing t with
  | nil => rfl
  | cons e events ih =>
      have hFirst :
          ((t.say .info (announcement o e)
              [("client_order_id", o.id)]).count
                (.eventsEmitted e.topic) 1).journal.total c =
            t.journal.total c +
              [Counter.eventsEmitted e.topic].count c :=
        Journal.total_count_one _ _ c
      rw [List.foldl_cons, ih, hFirst, Nat.add_assoc,
        ← List.count_append]
      rfl

/- An update moves the counters that its answer tells. -/
theorem total_receive
    (t : Tracker)
    (u : Update)
    (c : Counter) :
    (t.receive u).1.journal.total c =
      t.journal.total c +
        ((t.receive u).2.verdict.moves u.channel).count c := by
  unfold receive fetch
  rcases hFound : t.book.find t.now u.orderId with ⟨b, o?⟩
  cases o? with
  | none => exact Journal.total_count_one _ _ c
  | some o =>
      simp only
      rcases o.apply u with ⟨p, outcome⟩
      cases outcome with
      | error why => rfl
      | ok outcome =>
          cases outcome with
          | unchanged => rfl
          | stale last => exact Journal.total_count_one _ _ c
          | rejected reason =>
              have hCounter :=
                Dismissal.counter_ofRefusal p.id u.channel reason
              unfold rejected Verdict.moves Receipt.closed
              simp only [hCounter]
              exact Journal.total_count_one _ _ c
          | applied =>
              unfold applied
              simp only
              cases hEvents :
                  p.eventsSince o.snapshot u.channel t.clock.now
                    t.policy with
              | error why => rfl
              | ok events => exact total_announce _ p events c

/- Orders that have gone from the cache are counted. -/
theorem total_dropped
    (j : Journal)
    (dropped : Nat)
    (c : Counter) :
    (j.count .cacheEvictions dropped).total c =
      j.total c +
        (List.replicate dropped Counter.cacheEvictions).count
          c := by
  rw [Journal.total_count, List.count_replicate]
  simp only [beq_iff_eq]

/- Every step moves the counters as its happenings tell. -/
theorem total_after
    (t : Tracker)
    (a : Deed)
    (c : Counter) :
    (t.after a).journal.total c =
      t.journal.total c + moved (t.happens a) c := by
  have hNone :
      ∀ id, moved (t.reclaims id) c = 0 := by
    intro id
    unfold reclaims
    split <;> rfl
  have hLooked : ∀ id, moved (t.looksUp id) c = 0 := by
    intro id
    unfold looksUp
    split
    · rfl
    · exact hNone id
  cases a with
  | start o => rfl
  | advance nanos => rfl
  | fetch id =>
      unfold happens
      rw [hLooked]
      rfl
  | fetchRetired id =>
      unfold happens
      rw [hNone]
      rfl
  | receive u =>
      unfold happens
      rw [moved_append, hLooked, Nat.zero_add, moved_singleton]
      exact total_receive t u c
  | stop id =>
      unfold happens
      simp only [after, stop]
      rcases hStop : t.book.stop t.now id with ⟨b, dropped?⟩
      cases dropped? with
      | none => rfl
      | some dropped =>
          simp only [moved_singleton]
          exact
            total_dropped
              (t.journal.say .debug "Stopped tracking order"
                [("client_order_id", id)]) dropped c
  | purge =>
      unfold happens
      simp only [after, purge, moved_singleton]
      rcases hPurge : t.book.purge t.now with ⟨b, dropped⟩
      simp only
      by_cases hNothing : dropped = 0
      · subst hNothing
        rfl
      · rw [if_neg hNothing]
        exact total_dropped t.journal dropped c

/- The counters go by what happens. -/
theorem audit_total :
    Audit fun t xs t' =>
      ∀ c,
        t'.journal.total c = t.journal.total c + moved xs c where
  still := fun _ _ => rfl
  append := by
    intro t t' t'' xs ys hFirst hSecond c
    rw [hSecond, hFirst, moved_append, Nat.add_assoc]
  said := fun _ _ _ _ _ => rfl
  step := total_after
  ended := fun _ _ _ => rfl
  failed := by
    intro t topic ending hFailed c
    have hMoves :
        (Happening.called topic ending).moves =
          [.listenerFailures topic] := by
      cases ending with
      | done => contradiction
      | failed message => rfl
      | panicked => rfl
    rw [moved_singleton, hMoves]
    exact Journal.total_count_one t.journal _ c

end Tracker

variable {L μ : Type}

/-
  After a run every counter has gone up by as much as what
  has happened meanwhile has moved it.
-/
theorem Desk.total_attendAll
    (plan : L → Event → Plan L μ)
    (depth : Nat)
    (d : Desk L μ)
    (es : List (Errand L))
    (c : Counter) :
    let hear := Hearing.planned plan depth
    let tells := Hearing.tells plan depth
    (d.attendAll hear es).tracker.journal.total c =
      d.tracker.journal.total c +
        moved (d.happenings hear tells es) c :=
  Desk.audit_attendAll Tracker.audit_total
    (Desk.audited_planned Tracker.audit_total plan depth) d es c

------------------------------------------------------------
-- Told from answers and deliveries
------------------------------------------------------------

namespace Dismissal

/- No order of the name has been found. -/
def isUnknown : Dismissal → Bool
  | .unknownOrder _ => true
  | _ => false

/- The update was not newer than the last one. -/
def isStale : Dismissal → Bool
  | .staleUpdate _ _ _ _ => true
  | _ => false

/- The update was refused for a reason of some short name. -/
def isFor (reason : String) (why : Dismissal) : Bool :=
  why.code? = some reason

end Dismissal

namespace Happening

/- An update on a channel was ignored, for some reason. -/
def isIgnored
    (channel : Channel)
    (p : Dismissal → Bool) : Happening → Bool
  | .answered here (.ignored why) => here = channel && p why
  | _ => false

/- A listener of a topic has failed or panicked. -/
def isFailure (topic : Topic) : Happening → Bool
  | .called here ending => here = topic && ending.isFailure
  | _ => false

/- The events of an update that was applied. -/
def events : Happening → List Event
  | .answered _ v => v.events
  | _ => []

end Happening

/- The counters of a journal are right about what happened. -/
structure Journal.Reconciles
    (j : Journal)
    (xs : List Happening) : Prop where
  unknown :
    ∀ channel,
      j.total (.unknownOrders channel) =
        xs.countP (Happening.isIgnored channel
          Dismissal.isUnknown)
  stale :
    ∀ channel,
      j.total (.staleUpdates channel) =
        xs.countP (Happening.isIgnored channel
          Dismissal.isStale)
  refused :
    ∀ channel reason,
      j.total (.rejectedUpdates channel reason) =
        xs.countP (Happening.isIgnored channel
          (Dismissal.isFor reason))
  emitted :
    ∀ topic,
      j.total (.eventsEmitted topic) =
        (xs.flatMap Happening.events).countP fun e =>
          e.topic = topic
  failed :
    ∀ topic,
      j.total (.listenerFailures topic) =
        xs.countP (Happening.isFailure topic)

/- Anything else moves other counters, if it moves any. -/
theorem count_moves_of_not_mem
    {x : Happening}
    {c : Counter}
    {here : Bool}
    (hNot : here = false)
    (hMem : c ∉ x.moves) :
    x.moves.count c = if here then 1 else 0 := by
  rw [hNot, if_neg Bool.false_ne_true]
  exact List.count_eq_zero.mpr hMem

/- A counter that nothing but certain dismissals move. -/
theorem moved_ignored
    {channel : Channel}
    {p : Dismissal → Bool}
    {c : Counter}
    (hOwn :
      ∀ here why,
        Dismissal.counter here why = c ↔
          here = channel ∧ p why = true)
    (hEmitted : ∀ topic, .eventsEmitted topic ≠ c)
    (hFailed : ∀ topic, .listenerFailures topic ≠ c)
    (hEvicted : .cacheEvictions ≠ c)
    (xs : List Happening) :
    moved xs c =
      xs.countP (Happening.isIgnored channel p) := by
  apply moved_eq_countP
  intro x
  cases x with
  | answered here v =>
      cases v with
      | ignored why =>
          unfold Happening.moves Verdict.moves
            Happening.isIgnored
          rw [List.count_singleton]
          simp [hOwn]
      | applied events =>
          apply count_moves_of_not_mem rfl
          simp [Happening.moves, Verdict.moves, hEmitted]
      | unchanged => rfl
      | broken why => rfl
  | called topic ending =>
      apply count_moves_of_not_mem rfl
      cases ending <;>
        simp [Happening.moves, Ending.isFailure,
          (hFailed topic).symm]
  | retired id anew dropped =>
      apply count_moves_of_not_mem rfl
      simp [Happening.moves, List.mem_replicate, hEvicted.symm]
  | purged dropped =>
      apply count_moves_of_not_mem rfl
      simp [Happening.moves, List.mem_replicate, hEvicted.symm]
  | reclaimed id => rfl

theorem moved_failed
    (xs : List Happening)
    (topic : Topic) :
    moved xs (.listenerFailures topic) =
      xs.countP (Happening.isFailure topic) := by
  apply moved_eq_countP
  intro x
  cases x with
  | answered here v =>
      apply count_moves_of_not_mem rfl
      cases v with
      | ignored why =>
          cases why <;>
            simp [Happening.moves, Verdict.moves,
              Dismissal.counter]
      | applied events =>
          simp [Happening.moves, Verdict.moves]
      | unchanged => simp [Happening.moves, Verdict.moves]
      | broken why => simp [Happening.moves, Verdict.moves]
  | called here ending =>
      cases ending <;>
        simp [Happening.moves, Happening.isFailure,
          Ending.isFailure, List.count_singleton]
  | retired id anew dropped =>
      apply count_moves_of_not_mem rfl
      simp [Happening.moves, List.mem_replicate]
  | purged dropped =>
      apply count_moves_of_not_mem rfl
      simp [Happening.moves, List.mem_replicate]
  | reclaimed id => rfl

/- Answers are told event by event. -/
theorem moved_emitted
    (xs : List Happening)
    (topic : Topic) :
    moved xs (.eventsEmitted topic) =
      (xs.flatMap Happening.events).countP fun e =>
        e.topic = topic := by
  induction xs with
  | nil => rfl
  | cons x xs ih =>
      have hOne :
          x.moves.count (.eventsEmitted topic) =
            x.events.countP fun e => e.topic = topic := by
        cases x with
        | answered here v =>
            cases v with
            | applied events =>
                change
                  (events.map fun e =>
                    Counter.eventsEmitted e.topic).count _ =
                      events.countP _
                rw [List.count, List.countP_map]
                apply List.countP_congr
                simp
            | ignored why =>
                cases why <;> rfl
            | _ => rfl
        | called here ending =>
            unfold Happening.moves
            cases ending <;> rfl
        | reclaimed id => rfl
        | _ =>
            unfold Happening.moves Happening.events
            rw [List.countP_nil, List.count_eq_zero]
            simp [List.mem_replicate]
      rw [← List.singleton_append, moved_append, ih,
        moved_singleton, hOne, List.flatMap_append,
        List.flatMap_singleton, List.countP_append]

variable {L μ : Type}

/-
  A desk is opened, and orders are started and stopped,
  updates come in, records are looked up, time goes on,
  listeners subscribe and unsubscribe, and events are
  published.  The listeners may do all this as well, and may
  fail or panic in the end; what they do may nest.  At any
  point all counters of updates, of events and of failures
  are right about what has happened up to there.
-/
theorem Desk.counters_reconcile
    (plan : L → Event → Plan L μ)
    (depth : Nat)
    (policy : TerminalPolicy)
    (capacity ttl : Nat)
    (clock : Time.Clock)
    (sink : Sink L)
    (memory : μ)
    (es : List (Errand L)) :
    let hear := Hearing.planned plan depth
    let tells := Hearing.tells plan depth
    let d : Desk L μ :=
      opening policy capacity ttl clock sink memory
    (d.attendAll hear es).tracker.journal.Reconciles
      (d.happenings hear tells es) := by
  intro hear tells d
  have hTotal :
      ∀ c,
        (d.attendAll hear es).tracker.journal.total c =
          moved (d.happenings hear tells es) c := by
    intro c
    rw [total_attendAll plan depth d es c]
    exact Nat.zero_add _
  refine
    { unknown := ?_
      stale := ?_
      refused := ?_
      emitted := ?_
      failed := ?_ }
  · intro channel
    rw [hTotal]
    apply moved_ignored <;> try simp
    intro here why
    cases why <;> simp [Dismissal.counter, Dismissal.isUnknown]
  · intro channel
    rw [hTotal]
    apply moved_ignored <;> try simp
    intro here why
    cases why <;> simp [Dismissal.counter, Dismissal.isStale]
  · intro channel reason
    rw [hTotal]
    apply moved_ignored <;> try simp
    intro here why
    cases why <;>
      simp [Dismissal.counter, Dismissal.isFor, Dismissal.code?]
  · intro topic
    rw [hTotal, moved_emitted]
  · intro topic
    rw [hTotal, moved_failed]

end OrderWatch
