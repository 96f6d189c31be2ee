import Mathlib.Algebra.BigOperators.Group.List.Basic
import Mathlib.Algebra.GroupWithZero.Nat
import OrderWatch.Bus

/-
  What stands on a bus after some changes.

  Subscriptions are made and ended one after the other, and
  each change has its reply.  From the changes and replies
  alone it can be told who listens to a topic: those who have
  been subscribed to it and whose number has not been ended
  for it since.  A bus has these subscriptions, in the order
  in which they were made, and each of its replies is the one
  that follows from the changes before.

  Main declarations:
    * `Bus.Change`, `Bus.Reply`, `Bus.change`
    * `Bus.standing`, `Bus.replyTo`
    * `Bus.Reflects`, `Bus.Reflects.change`
    * `Bus.Reflects.records`
-/

namespace OrderWatch

namespace Bus

variable {L : Type}

------------------------------------------------------------
-- Changes
------------------------------------------------------------

/- What can be done to the subscriptions. -/
inductive Change (L : Type) where
  | subscribe (topic : Topic) (listener : L)
  | subscribeAll (listener : L)
  | unsubscribe (topic : Topic) (number : Nat)
  | unsubscribeAll (number : Nat)
deriving DecidableEq, Repr

/- What is answered to a change. -/
inductive Reply where
  /- The number of a new subscription. -/
  | subscribed (number : Nat)
  | ended (b : Bool)
  | endedAll (n : Nat)
deriving DecidableEq, Repr

def change (b : Bus L) : Change L → Bus L × Reply
  | .subscribe topic listener =>
      let (b, number) := b.subscribe topic listener
      (b, .subscribed number)
  | .subscribeAll listener =>
      let (b, number) := b.subscribeAll listener
      (b, .subscribed number)
  | .unsubscribe topic number =>
      let (b, ended) := b.unsubscribe topic number
      (b, .ended ended)
  | .unsubscribeAll number =>
      let (b, n) := b.unsubscribeAll number
      (b, .endedAll n)

/- A bus after some changes. -/
def changeAll (b : Bus L) (cs : List (Change L)) : Bus L :=
  cs.foldl (fun b c => (b.change c).1) b

/- Some changes with the replies to them. -/
def records (b : Bus L) : List (Change L) → List (Change L × Reply)
  | [] => []
  | c :: cs => (c, (b.change c).2) :: (b.change c).1.records cs

theorem records_append
    (b : Bus L)
    (cs ds : List (Change L)) :
    b.records (cs ++ ds) =
      b.records cs ++ (b.changeAll cs).records ds := by
  induction cs generalizing b with
  | nil => rfl
  | cons c cs ih =>
      exact congrArg (List.cons (c, _)) (ih (b.change c).1)

theorem changeAll_append
    (b : Bus L)
    (cs ds : List (Change L)) :
    b.changeAll (cs ++ ds) = (b.changeAll cs).changeAll ds :=
  List.foldl_append

------------------------------------------------------------
-- Told from changes and replies
------------------------------------------------------------

namespace Change

/- Who is subscribed to a topic by a change. -/
def added? (c : Change L) (topic : Topic) : Option L :=
  match c with
  | .subscribe t listener =>
      if t = topic then some listener else none
  | .subscribeAll listener => some listener
  | .unsubscribe _ _ | .unsubscribeAll _ => none

/- Whether a change ends what has a number under a topic. -/
def ends (c : Change L) (topic : Topic) (number : Nat) : Bool :=
  match c with
  | .unsubscribe t n => t = topic && n = number
  | .unsubscribeAll n => n = number
  | .subscribe _ _ | .subscribeAll _ => false

end Change

/- The numbers that have been given out. -/
def given : List (Change L × Reply) → List Nat :=
  List.filterMap fun
    | (_, .subscribed number) => some number
    | _ => none

/-
  The listeners of a topic with their numbers: those who have
  been added and have not been ended later, in the order in
  which they were added.
-/
def standing (topic : Topic) :
    List (Change L × Reply) → List (Nat × L)
  | [] => []
  | (c, reply) :: later =>
      match c.added? topic, reply with
      | some listener, .subscribed number =>
          if later.any fun r => r.1.ends topic number then
            standing topic later
          else
            (number, listener) :: standing topic later
      | _, _ => standing topic later

/- How many subscriptions have a number under a topic. -/
def standingAs
    (number : Nat)
    (rs : List (Change L × Reply))
    (topic : Topic) : Nat :=
  (standing topic rs).countP fun s => s.1 = number

/-
  The reply to a change after others: a number that has not
  been given out, or how much the change ends.
-/
def replyTo (rs : List (Change L × Reply)) : Change L → Reply
  | .subscribe _ _ | .subscribeAll _ =>
      .subscribed (given rs).length
  | .unsubscribe topic number =>
      .ended (0 < standingAs number rs topic)
  | .unsubscribeAll number =>
      .endedAll (Worded.all.map (standingAs number rs)).sum

/- The listeners of a topic with the numbers of a bus. -/
def numbered (b : Bus L) (topic : Topic) : List (Nat × L) :=
  (b.subscriptions.filter fun s => s.topic = topic).map
    fun s => (s.number, s.listener)

theorem subscribers_eq_numbered
    (b : Bus L)
    (topic : Topic) :
    b.subscribers topic = (b.numbered topic).map Prod.snd := by
  unfold subscribers numbered
  rw [List.map_map]
  rfl

/- A bus is what some changes and replies say it is. -/
structure Reflects
    (b : Bus L)
    (rs : List (Change L × Reply)) : Prop where
  numbered : ∀ topic, b.numbered topic = standing topic rs
  next : b.next = (given rs).length
  replies :
    ∀ before c reply later,
      rs = before ++ (c, reply) :: later →
      reply = replyTo before c

------------------------------------------------------------
-- One more change
------------------------------------------------------------

/- Whom a change with its reply adds to a topic. -/
def addition
    (topic : Topic)
    (c : Change L)
    (reply : Reply) : List (Nat × L) :=
  match c.added? topic, reply with
  | some listener, .subscribed number => [(number, listener)]
  | _, _ => []

/- A change ends what has stood, and adds to it. -/
theorem standing_append
    (topic : Topic)
    (rs : List (Change L × Reply))
    (c : Change L)
    (reply : Reply) :
    standing topic (rs ++ [(c, reply)]) =
      (standing topic rs).filter (fun s => !c.ends topic s.1) ++
        addition topic c reply := by
  induction rs with
  | nil =>
      simp only [List.nil_append, standing, List.any_nil,
        Bool.false_eq_true, if_false, List.filter_nil]
      rfl
  | cons r rs ih =>
      rcases r with ⟨c', reply'⟩
      simp only [List.cons_append, standing]
      split
      · rename_i listener number _
        rw [List.any_append, List.any_cons, List.any_nil,
          Bool.or_false, ih]
        cases rs.any fun r => r.1.ends topic number with
        | true => rfl
        | false =>
            cases hEnds : c.ends topic number with
            | true => simp [hEnds]
            | false => simp [hEnds]
      · exact ih

/- New subscriptions come last. -/
theorem numbered_subscribeTo
    (b : Bus L)
    (topics : List Topic)
    (listener : L)
    (topic : Topic) :
    (b.subscribeTo topics listener).1.numbered topic =
      b.numbered topic ++
        (topics.filter fun t => t = topic).map
          fun _ => (b.next, listener) := by
  unfold subscribeTo numbered
  rw [List.filter_append, List.map_append, List.filter_map,
    List.map_map]
  rfl

/- What is ended under a topic goes by the numbers there. -/
theorem numbered_cancel
    (b : Bus L)
    {ended : Subscription L → Bool}
    {topic : Topic}
    {gone : Nat → Bool}
    (hGone : ∀ s, s.topic = topic → ended s = gone s.number) :
    (b.cancel ended).1.numbered topic =
      (b.numbered topic).filter fun s => !gone s.1 := by
  unfold cancel numbered
  rw [List.partition_eq_filter_filter, List.filter_map,
    List.filter_filter, List.filter_filter]
  congr 1
  apply List.filter_congr
  intro s _
  by_cases hTopic : s.topic = topic
  · simp [hTopic, hGone s hTopic]
  · simp [hTopic]

theorem cancel_count
    (b : Bus L)
    (ended : Subscription L → Bool) :
    (b.cancel ended).2 = b.subscriptions.countP ended := by
  unfold cancel
  rw [List.partition_eq_filter_filter,
    List.countP_eq_length_filter]

/- There is one of each topic among all of them. -/
theorem filter_all
    (topic : Topic) :
    (Worded.all : List Topic).filter (fun t => t = topic) =
      [topic] := by
  cases topic with
  | created side => cases side <;> rfl
  | completed side => cases side <;> rfl
  | _ => rfl

/- What a change that ends nothing leaves is everything. -/
theorem filter_ends_nothing
    {c : Change L}
    {topic : Topic}
    (hNone : ∀ number, c.ends topic number = false)
    (xs : List (Nat × L)) :
    xs.filter (fun s => !c.ends topic s.1) = xs := by
  apply List.filter_eq_self.mpr
  intro s _
  rw [hNone]
  rfl

/- A change ends what a bus has, and adds to it. -/
theorem numbered_change
    (b : Bus L)
    (c : Change L)
    (topic : Topic) :
    (b.change c).1.numbered topic =
      (b.numbered topic).filter (fun s => !c.ends topic s.1) ++
        addition topic c (b.change c).2 := by
  cases c with
  | subscribe t listener =>
      have hAdded := b.numbered_subscribeTo [t] listener topic
      rw [filter_ends_nothing (fun _ => rfl)]
      refine hAdded.trans ?_
      by_cases hTopic : t = topic
      · simp [addition, Change.added?, change, subscribe,
          subscribeTo, hTopic]
      · simp [addition, Change.added?, hTopic]
  | subscribeAll listener =>
      have hAdded :=
        b.numbered_subscribeTo Worded.all listener topic
      rw [filter_all] at hAdded
      rw [filter_ends_nothing (fun _ => rfl)]
      exact hAdded
  | unsubscribe t number =>
      have hGone :
          ∀ s : Subscription L, s.topic = topic →
            (decide (s.topic = t) && decide (s.number = number)) =
              (decide (t = topic) && decide (number = s.number)) := by
        intro s hTopic
        rw [hTopic, decide_eq_decide.mpr eq_comm,
          decide_eq_decide.mpr (eq_comm (a := s.number))]
      exact
        (b.numbered_cancel hGone).trans
          (List.append_nil _).symm
  | unsubscribeAll number =>
      have hGone :
          ∀ s : Subscription L, s.topic = topic →
            decide (s.number = number) =
              decide (number = s.number) := by
        intro s _
        exact decide_eq_decide.mpr eq_comm
      exact
        (b.numbered_cancel hGone).trans
          (List.append_nil _).symm

/- Every subscription is one of its topic. -/
theorem sum_countP_topics
    (subscriptions : List (Subscription L))
    (p : Subscription L → Bool) :
    (Worded.all.map fun topic =>
      subscriptions.countP fun s =>
        p s && decide (s.topic = topic)).sum =
      subscriptions.countP p := by
  induction subscriptions with
  | nil => rfl
  | cons s rest ih =>
      simp only [List.countP_cons]
      rw [List.sum_map_add, ih]
      congr 1
      cases p s with
      | false => simp
      | true =>
          rcases s with ⟨topic, _, _⟩
          cases topic with
          | created side => cases side <;> rfl
          | completed side => cases side <;> rfl
          | _ => rfl

theorem countP_numbered
    (b : Bus L)
    (number : Nat)
    (topic : Topic) :
    (b.numbered topic).countP (fun s => s.1 = number) =
      b.subscriptions.countP fun s =>
        decide (s.number = number) && decide (s.topic = topic) := by
  unfold numbered
  rw [List.countP_map, List.countP_filter]
  rfl

------------------------------------------------------------
-- Histories
------------------------------------------------------------

theorem reflects_empty :
    (∅ : Bus L).Reflects [] where
  numbered := fun _ => rfl
  next := rfl
  replies := by
    intro before c reply later hSplit
    simp at hSplit

namespace Reflects

variable {b : Bus L} {rs : List (Change L × Reply)}

theorem standingAs_eq
    (h : b.Reflects rs)
    (number : Nat)
    (topic : Topic) :
    standingAs number rs topic =
      b.subscriptions.countP fun s =>
        decide (s.number = number) && decide (s.topic = topic) := by
  unfold standingAs
  rw [← h.numbered, countP_numbered]

/- The reply follows from the changes before. -/
theorem reply_eq
    (h : b.Reflects rs)
    (c : Change L) :
    (b.change c).2 = replyTo rs c := by
  cases c with
  | subscribe topic listener =>
      exact congrArg Reply.subscribed h.next
  | subscribeAll listener => exact congrArg Reply.subscribed h.next
  | unsubscribe topic number =>
      have hCount :
          (b.cancel fun s =>
              s.topic = topic && s.number = number).2 =
            standingAs number rs topic := by
        rw [h.standingAs_eq, b.cancel_count]
        simp only [Bool.and_comm]
      exact congrArg (fun n => Reply.ended (0 < n)) hCount
  | unsubscribeAll number =>
      have hCount := b.cancel_count fun s => s.number = number
      rw [← sum_countP_topics,
        ← funext (h.standingAs_eq number)] at hCount
      exact congrArg Reply.endedAll hCount

theorem next_change
    (h : b.Reflects rs)
    (c : Change L) :
    (b.change c).1.next =
      (given (rs ++ [(c, (b.change c).2)])).length := by
  unfold given
  rw [List.filterMap_append, List.length_append]
  cases c with
  | subscribe topic listener =>
      exact congrArg (· + 1) h.next
  | subscribeAll listener => exact congrArg (· + 1) h.next
  | unsubscribe topic number => exact h.next
  | unsubscribeAll number => exact h.next

/- One more change is reflected. -/
theorem change
    (h : b.Reflects rs)
    (c : Change L) :
    (b.change c).1.Reflects (rs ++ [(c, (b.change c).2)]) where
  numbered := by
    intro topic
    rw [numbered_change, h.numbered, standing_append]
  next := h.next_change c
  replies := by
    intro before c' reply later hSplit
    rcases List.eq_nil_or_concat later with
      rfl | ⟨earlier, r, rfl⟩
    · rcases List.append_inj' hSplit rfl with ⟨rfl, hLast⟩
      rcases List.cons.inj hLast with ⟨hPair, _⟩
      rw [← (Prod.mk.inj hPair).1, ← (Prod.mk.inj hPair).2]
      exact h.reply_eq c
    · have hRest :
          rs ++ [(c, (b.change c).2)] =
            (before ++ (c', reply) :: earlier) ++ [r] := by
        rw [hSplit]
        simp
      rcases List.append_inj' hRest rfl with ⟨hBefore, _⟩
      exact h.replies before c' reply earlier hBefore

/- So are all of them. -/
theorem records
    (h : b.Reflects rs)
    (cs : List (Change L)) :
    (b.changeAll cs).Reflects (rs ++ b.records cs) := by
  induction cs generalizing b rs with
  | nil =>
      rw [show b.records [] = [] from rfl, List.append_nil]
      exact h
  | cons c cs ih =>
      have hNext := ih (h.change c)
      rw [List.append_assoc] at hNext
      exact hNext

end Reflects

end Bus

end OrderWatch
