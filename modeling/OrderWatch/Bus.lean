import OrderWatch.Event

/-
  Who listens to which topic.

  Subscriptions are kept in the order in which they were
  made.  A listener that subscribes to all topics has one
  number for all of them.

  Key definitions:
    * `Bus`
    * `Bus.subscribe`, `Bus.subscribeAll`
    * `Bus.unsubscribe`, `Bus.unsubscribeAll`
    * `Bus.subscribers`
-/

namespace OrderWatch

structure Subscription (L : Type) where
  topic : Topic
  /- The number by which the subscription is ended. -/
  number : Nat
  listener : L
deriving DecidableEq, Repr

structure Bus (L : Type) where
  subscriptions : List (Subscription L)
  /- The number of the next listener. -/
  next : Nat
deriving DecidableEq, Repr, Inhabited

namespace Bus

variable {L : Type}

instance : EmptyCollection (Bus L) :=
  ⟨⟨[], 0⟩⟩

/- Subscribe a listener to some topics, under a new number. -/
def subscribeTo
    (b : Bus L)
    (topics : List Topic)
    (listener : L) : Bus L × Nat :=
  ({ subscriptions :=
      b.subscriptions ++
        topics.map fun topic => ⟨topic, b.next, listener⟩
     next := b.next + 1 },
    b.next)

def subscribe
    (b : Bus L)
    (topic : Topic)
    (listener : L) : Bus L × Nat :=
  b.subscribeTo [topic] listener

def subscribeAll (b : Bus L) (listener : L) : Bus L × Nat :=
  b.subscribeTo Worded.all listener

/- End some subscriptions, and count them. -/
def cancel
    (b : Bus L)
    (ended : Subscription L → Bool) : Bus L × Nat :=
  let (out, kept) := b.subscriptions.partition ended
  ({ b with subscriptions := kept }, out.length)

/- End a subscription; the answer is whether there was one. -/
def unsubscribe
    (b : Bus L)
    (topic : Topic)
    (number : Nat) : Bus L × Bool :=
  let (b, ended) :=
    b.cancel fun s => s.topic = topic && s.number = number
  (b, ended > 0)

/- End all subscriptions of a listener, and count them. -/
def unsubscribeAll
    (b : Bus L)
    (number : Nat) : Bus L × Nat :=
  b.cancel fun s => s.number = number

/- The listeners of a topic, in the order of subscription. -/
def subscribers (b : Bus L) (topic : Topic) : List L :=
  (b.subscriptions.filter fun s => s.topic = topic).map
    Subscription.listener

end Bus

end OrderWatch
