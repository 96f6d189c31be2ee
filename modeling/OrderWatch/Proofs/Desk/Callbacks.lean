import OrderWatch.Proofs.Desk.Deeds
import OrderWatch.Proofs.Desk.Publication

/-
  Listeners that call back, and what happens meanwhile.

  A listener may use the desk that calls it: it may take in
  updates of other orders, whose events are then delivered
  before it goes on, to itself again if it has subscribed to
  them.  What it does is a plan, in which every errand is
  decided by what came before.  Calls may nest as deep as a
  given depth; a listener that is called deeper than that
  does nothing, so a run that does not nest deeper is not
  cut short.

  What happens in a run is a single list, the happenings of
  the nested calls included: updates that are answered, ends
  of deliveries, and what goes into the cache and out of it.
  A relation between trackers that holds of every step with
  its happenings, and of steps put together, holds of runs.

  Main declarations:
    * `Errand`, `Plan`, `Plan.carryOut`
    * `Hearing.planned`
    * `Happening`, `Tracker.happens`
    * `Desk.happensAt`, `Hearing.tells`, `Desk.happenings`
    * `Tracker.Audit`
    * `Desk.audit_attendAll`, `Desk.planned_doesSeen`
-/

namespace OrderWatch

variable {L μ : Type}

------------------------------------------------------------
-- Plans
------------------------------------------------------------

/- What is asked of a tracker, or of the bus beside it. -/
inductive Errand (L : Type) where
  | act (a : Action)
  | call (c : Bus.Call L)

/- A desk after an errand, and the answer of the tracker. -/
def Desk.attend
    (hear : Hearing L μ)
    (d : Desk L μ) : Errand L → Desk L μ × Answer
  | .act a => d.perform hear a
  | .call c => (d.call hear c, .done)

/- A desk after some errands. -/
def Desk.attendAll
    (hear : Hearing L μ)
    (d : Desk L μ)
    (xs : List (Errand L)) : Desk L μ :=
  xs.foldl (fun d x => (d.attend hear x).1) d

/-
  What a listener does until it comes to its end.  It goes by
  the answers, may look at the desk, and may remember things.
-/
inductive Plan (L μ : Type) where
  | finish (ending : Ending)
  | errand (x : Errand L) (next : Answer → Plan L μ)
  | look (next : Desk L μ → Plan L μ)
  | remember (memory : μ) (next : Plan L μ)

/- A desk on which a plan has been carried out. -/
def Plan.carryOut
    (hear : Hearing L μ) :
    Plan L μ → Desk L μ → Desk L μ × Ending
  | .finish ending, d => (d, ending)
  | .errand x next, d =>
      (next (d.attend hear x).2).carryOut hear
        (d.attend hear x).1
  | .look next, d => (next d).carryOut hear d
  | .remember memory next, d =>
      next.carryOut hear { d with memory }

/-
  Listeners that carry out plans.  Their errands are attended
  to by the same listeners, one call less deep.
-/
def Hearing.planned
    (plan : L → Event → Plan L μ) : Nat → Hearing L μ
  | 0 => .idle
  | depth + 1 => fun l e d =>
      (plan l e).carryOut (planned plan depth) d

------------------------------------------------------------
-- Happenings
------------------------------------------------------------

/- What happens on a desk. -/
inductive Happening where
  /- An update on a channel has been answered. -/
  | answered (channel : Channel) (v : Verdict)
  /- A listener of a topic has come to its end. -/
  | called (topic : Topic) (ending : Ending)
  /-
    An order has gone into the cache, under a name that had
    no entry before or again, and some others have gone out.
  -/
  | retired (id : OrderId) (anew : Bool) (dropped : Nat)
  /- Expired orders have been purged. -/
  | purged (dropped : Nat)
  /- An expired order has been met by a look-up, and dropped. -/
  | reclaimed (id : OrderId)
deriving DecidableEq

/- The step of the tracker that an action is, if it is one. -/
def Action.deed? : Action → Option Deed
  | .start o => some (.start o)
  | .update u => some (.receive u)
  | .stop id => some (.stop id)
  | .fetch id => some (.fetch id)
  | .fetchRetired id => some (.fetchRetired id)
  | .purge | .sweep => some .purge
  | .advance nanos => some (.advance nanos)
  | .fetchActive _ | .activeOrders | .retiredOrders
  | .summary => none

namespace Tracker

/- What a look-up among the retired orders comes to. -/
def reclaims (t : Tracker) (id : OrderId) : List Happening :=
  if t.book.retired.index[id]?.any
      (t.book.retired.isExpired t.now) then
    [.reclaimed id]
  else
    []

/- An active order is found without looking further. -/
def looksUp (t : Tracker) (id : OrderId) : List Happening :=
  if t.book.isActive id then [] else t.reclaims id

/- What happens in one step of a tracker. -/
def happens (t : Tracker) : Deed → List Happening
  | .start _ | .advance _ => []
  | .receive u =>
      t.looksUp u.orderId ++
        [.answered u.channel (t.receive u).2.verdict]
  | .stop id =>
      match (t.book.stop t.now id).2 with
      | some dropped =>
          [.retired id (!t.book.retired.index.contains id)
            dropped]
      | none => []
  | .fetch id => t.looksUp id
  | .fetchRetired id => t.reclaims id
  | .purge => [.purged (t.book.purge t.now).2]

end Tracker

namespace Desk

section Happenings

variable (hear : Hearing L μ)
variable (tells : L → Event → Desk L μ → List Happening)

/- What happens when one listener is called for an event. -/
def happensTo
    (e : Event)
    (d : Desk L μ) : Listener L → List Happening
  | .log => [.called e.topic .done]
  | .other _ l =>
      tells l e d ++ [.called e.topic (hear l e d).2]

/- What happens when some listeners are called in turn. -/
def happensToAll
    (e : Event) : Desk L μ → List (Listener L) → List Happening
  | _, [] => []
  | d, l :: ls =>
      happensTo hear tells e d l ++
        happensToAll e (deliver hear e d l) ls

/- What happens when an event is published. -/
def happensFor (d : Desk L μ) (e : Event) : List Happening :=
  match d.sink with
  | .bus b => happensToAll hear tells e d (b.subscribers e.topic)
  | .recording _ | .silent => []

/- What happens when some events are published. -/
def happensForAll : Desk L μ → List Event → List Happening
  | _, [] => []
  | d, e :: events =>
      d.happensFor hear tells e ++
        happensForAll (d.publish hear e) events

/-
  An update is looked up and answered, the listeners hear of
  it, and its order may be retired.
-/
def happensOn (d : Desk L μ) (u : Update) : List Happening :=
  let receipt := (d.tracker.receive u).2
  d.tracker.looksUp u.orderId
    ++ [.answered u.channel (d.process hear u).2]
    ++ (d.received u).happensForAll hear tells
        receipt.verdict.events
    ++ if receipt.retire then
        (d.heard hear u).tracker.happens (.stop u.orderId)
      else
        []

/- What happens in an action. -/
def happensIn (d : Desk L μ) : Action → List Happening
  | .update u => d.happensOn hear tells u
  | a => (a.deed?.map d.tracker.happens).getD []

/- What happens on an errand. -/
def happensAt (d : Desk L μ) : Errand L → List Happening
  | .act a => d.happensIn hear tells a
  | .call (.change _) => []
  | .call (.publish e) => d.happensFor hear tells e
  | .call (.publishAll events) =>
      d.happensForAll hear tells events

/- What happens while a plan is carried out. -/
def happensAlong : Plan L μ → Desk L μ → List Happening
  | .finish _, _ => []
  | .errand x next, d =>
      d.happensAt hear tells x ++
        happensAlong (next (d.attend hear x).2)
          (d.attend hear x).1
  | .look next, d => happensAlong (next d) d
  | .remember memory next, d =>
      happensAlong next { d with memory }

/- What happens on some errands. -/
def happenings : Desk L μ → List (Errand L) → List Happening
  | _, [] => []
  | d, x :: xs =>
      d.happensAt hear tells x ++
        happenings (d.attend hear x).1 xs

end Happenings

end Desk

/- What happens while listeners carry out their plans. -/
def Hearing.tells
    (plan : L → Event → Plan L μ) :
    Nat → L → Event → Desk L μ → List Happening
  | 0 => fun _ _ _ => []
  | depth + 1 => fun l e d =>
      Desk.happensAlong (planned plan depth)
        (tells plan depth) (plan l e) d

------------------------------------------------------------
-- Audits
------------------------------------------------------------

/-
  A relation between a tracker, what happens, and the tracker
  afterwards that holds of every step.  It goes by the books
  and the counters, so messages are of no account.
-/
structure Tracker.Audit
    (R : Tracker → List Happening → Tracker → Prop) :
    Prop where
  still : ∀ t, R t [] t
  append :
    ∀ {t t' t'' xs ys},
      R t xs t' → R t' ys t'' → R t (xs ++ ys) t''
  said :
    ∀ t level text details, R t [] (t.say level text details)
  step : ∀ t a, R t (t.happens a) (t.after a)
  ended : ∀ t topic, R t [.called topic .done] t
  failed :
    ∀ t topic ending, ending ≠ .done →
      R t [.called topic ending]
        (t.count (.listenerFailures topic) 1)

/- Listeners whose calls pass an audit. -/
def Hearing.Audited
    (R : Tracker → List Happening → Tracker → Prop)
    (hear : Hearing L μ)
    (tells : L → Event → Desk L μ → List Happening) : Prop :=
  ∀ l e d, R d.tracker (tells l e d) (hear l e d).1.tracker

namespace Desk

variable {R : Tracker → List Happening → Tracker → Prop}
variable {hear : Hearing L μ} {d : Desk L μ}
variable {tells : L → Event → Desk L μ → List Happening}

/- A failure is noted in a message and counted. -/
theorem audit_noteFailure
    (hAudit : Tracker.Audit R)
    (d : Desk L μ)
    (name : String)
    (e : Event)
    (ending : Ending) :
    R d.tracker [.called e.topic ending]
      (d.noteFailure name e ending).tracker := by
  cases ending with
  | done => exact hAudit.ended d.tracker e.topic
  | failed message =>
      exact
        hAudit.append (hAudit.said d.tracker _ _ _)
          (hAudit.failed _ e.topic (.failed message) (by simp))
  | panicked =>
      exact
        hAudit.append (hAudit.said d.tracker _ _ _)
          (hAudit.failed _ e.topic .panicked (by simp))

theorem audit_deliver
    (hAudit : Tracker.Audit R)
    (hHear : hear.Audited R tells)
    (e : Event)
    (d : Desk L μ)
    (l : Listener L) :
    R d.tracker (happensTo hear tells e d l)
      (deliver hear e d l).tracker := by
  cases l with
  | log =>
      exact
        hAudit.append (hAudit.ended d.tracker e.topic)
          (hAudit.said d.tracker _ _ _)
  | other name l =>
      exact
        hAudit.append (hHear l e d)
          (audit_noteFailure hAudit (hear l e d).1 name e _)

theorem audit_publish
    (hAudit : Tracker.Audit R)
    (hHear : hear.Audited R tells)
    (d : Desk L μ)
    (e : Event) :
    R d.tracker (d.happensFor hear tells e)
      (d.publish hear e).tracker := by
  unfold publish happensFor
  cases hSink : d.sink with
  | bus b =>
      clear hSink
      simp only
      induction b.subscribers e.topic generalizing d with
      | nil => exact hAudit.still d.tracker
      | cons l ls ih =>
          exact
            hAudit.append (audit_deliver hAudit hHear e d l)
              (ih (deliver hear e d l))
  | recording events => exact hAudit.still d.tracker
  | silent => exact hAudit.still d.tracker

theorem audit_publishAll
    (hAudit : Tracker.Audit R)
    (hHear : hear.Audited R tells)
    (d : Desk L μ)
    (events : List Event) :
    R d.tracker (d.happensForAll hear tells events)
      (d.publishAll hear events).tracker := by
  induction events generalizing d with
  | nil => exact hAudit.still d.tracker
  | cons e events ih =>
      exact
        hAudit.append (audit_publish hAudit hHear d e)
          (ih (d.publish hear e))

/- An update is received, told, and perhaps its last one. -/
theorem audit_process
    (hAudit : Tracker.Audit R)
    (hHear : hear.Audited R tells)
    (d : Desk L μ)
    (u : Update) :
    R d.tracker (d.happensOn hear tells u)
      (d.process hear u).1.tracker := by
  have hReceived :
      R d.tracker
        (d.tracker.looksUp u.orderId ++
          [.answered u.channel (d.process hear u).2])
        (d.received u).tracker := by
    rw [verdict_process]
    exact hAudit.step d.tracker (.receive u)
  have hHeard :=
    hAudit.append hReceived
      (audit_publishAll hAudit hHear (d.received u)
        (d.tracker.receive u).2.verdict.events)
  unfold happensOn
  rw [process_eq] at hHeard ⊢
  cases hRetire : (d.tracker.receive u).2.retire with
  | false =>
      simp only [hRetire, Bool.false_eq_true, if_false,
        List.append_nil] at hHeard ⊢
      exact hHeard
  | true =>
      simp only [hRetire, if_true] at hHeard ⊢
      exact
        hAudit.append hHeard
          (hAudit.step (d.heard hear u).tracker
            (.stop u.orderId))

/- A sweep is a purge, with messages. -/
theorem audit_sweep
    (hAudit : Tracker.Audit R)
    (t : Tracker) :
    R t (t.happens .purge) t.sweep := by
  have hPurged := hAudit.step t .purge
  rw [← List.append_nil (t.happens .purge)]
  unfold Tracker.sweep
  simp only
  split
  · exact hAudit.append hPurged (hAudit.said _ _ _ _)
  · refine hAudit.append hPurged ?_
    exact
      hAudit.append (hAudit.said _ _ _ _) (hAudit.said _ _ _ _)

theorem audit_perform
    (hAudit : Tracker.Audit R)
    (hHear : hear.Audited R tells)
    (d : Desk L μ)
    (a : Action) :
    R d.tracker (d.happensIn hear tells a)
      (d.perform hear a).1.tracker := by
  cases a with
  | update u => exact audit_process hAudit hHear d u
  | sweep => exact audit_sweep hAudit d.tracker
  | start o => exact hAudit.step d.tracker (.start o)
  | stop id => exact hAudit.step d.tracker (.stop id)
  | fetch id => exact hAudit.step d.tracker (.fetch id)
  | fetchRetired id =>
      exact hAudit.step d.tracker (.fetchRetired id)
  | purge => exact hAudit.step d.tracker .purge
  | advance nanos => exact hAudit.step d.tracker (.advance nanos)
  | _ => exact hAudit.still d.tracker

theorem audit_attend
    (hAudit : Tracker.Audit R)
    (hHear : hear.Audited R tells)
    (d : Desk L μ)
    (x : Errand L) :
    R d.tracker (d.happensAt hear tells x)
      (d.attend hear x).1.tracker := by
  cases x with
  | act a => exact audit_perform hAudit hHear d a
  | call c =>
      cases c with
      | change c => exact hAudit.still d.tracker
      | publish e => exact audit_publish hAudit hHear d e
      | publishAll events =>
          exact audit_publishAll hAudit hHear d events

/- A plan is audited errand by errand. -/
theorem audit_carryOut
    (hAudit : Tracker.Audit R)
    (hHear : hear.Audited R tells)
    (plan : Plan L μ)
    (d : Desk L μ) :
    R d.tracker (happensAlong hear tells plan d)
      (plan.carryOut hear d).1.tracker := by
  induction plan generalizing d with
  | finish ending => exact hAudit.still d.tracker
  | errand x next ih =>
      exact
        hAudit.append (audit_attend hAudit hHear d x)
          (ih (d.attend hear x).2 (d.attend hear x).1)
  | look next ih => exact ih d d
  | remember memory next ih => exact ih { d with memory }

/- The induction is on how deep the calls may nest. -/
theorem audited_planned
    (hAudit : Tracker.Audit R)
    (plan : L → Event → Plan L μ)
    (depth : Nat) :
    (Hearing.planned plan depth).Audited R
      (Hearing.tells plan depth) := by
  induction depth with
  | zero => exact fun _ _ d => hAudit.still d.tracker
  | succ depth ih =>
      exact fun l e d => audit_carryOut hAudit ih (plan l e) d

/-
  What such listeners do comes down to deeds, as far as these
  decide what is seen.
-/
theorem planned_doesSeen
    {α : Type}
    {view : Tracker → α}
    (hDecided : Tracker.Decided view)
    (plan : L → Event → Plan L μ)
    (depth : Nat) :
    ∃ deeds, (Hearing.planned plan depth).DoesSeen view deeds := by
  have hAudit :
      Tracker.Audit fun t _ t' =>
        ∃ ds, view t' = view (t.afterAll ds) :=
    { still := fun _ => ⟨[], rfl⟩
      append := by
        rintro t t' t'' xs ys ⟨ds, hFirst⟩ ⟨es, hSecond⟩
        exact ⟨ds ++ es, hDecided.afterAll_append hFirst hSecond⟩
      said := fun t level text details =>
        ⟨[], hDecided.said t level text details⟩
      step := fun _ a => ⟨[a], rfl⟩
      ended := fun _ _ => ⟨[], rfl⟩
      failed := fun t topic _ _ =>
        ⟨[], hDecided.failed t topic⟩ }
  have hAudited := audited_planned hAudit plan depth
  unfold Hearing.Audited at hAudited
  choose deeds hDeeds using hAudited
  exact ⟨deeds, hDeeds⟩

/- What holds of every step holds of a run. -/
theorem audit_attendAll
    (hAudit : Tracker.Audit R)
    (hHear : hear.Audited R tells)
    (d : Desk L μ)
    (xs : List (Errand L)) :
    R d.tracker (d.happenings hear tells xs)
      (d.attendAll hear xs).tracker := by
  induction xs generalizing d with
  | nil => exact hAudit.still d.tracker
  | cons x xs ih =>
      exact
        hAudit.append (audit_attend hAudit hHear d x)
          (ih (d.attend hear x).1)

end Desk

end OrderWatch
