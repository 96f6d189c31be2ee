import OrderWatch.Cache
import OrderWatch.Order

/-
  The orders that are known: the active ones, and for a while
  those that have been retired.

  A retired order lies in a bounded cache, from which it goes
  by age or for want of room.  An order that is both active
  and retired is found as the active one.

  Key definitions:
    * `Book`
    * `Book.start`, `Book.stop`
    * `Book.find`
    * `Book.write`
-/

namespace OrderWatch

structure Book where
  active : Std.ExtTreeMap OrderId Order compare
  retired : Cache OrderId Order

namespace Book

/- A book without orders. -/
def empty (capacity ttl : Nat) : Book :=
  ⟨∅, .empty capacity ttl⟩

/- Take up an order; an active one of its name is replaced. -/
def start (b : Book) (o : Order) : Book :=
  { b with active := b.active.insert o.id o }

/-
  Retire an order, if it is active.  The answer is the number
  of retired orders that have gone for it.
-/
def stop
    (b : Book)
    (now : Nat)
    (id : OrderId) : Book × Option Nat :=
  match b.active[id]? with
  | some o =>
      let (retired, dropped) := b.retired.put now id o
      ({ active := b.active.erase id, retired }, some dropped)
  | none => (b, none)

------------------------------------------------------------
-- Looking up
------------------------------------------------------------

def isActive (b : Book) (id : OrderId) : Bool :=
  b.active.contains id

/- A retired order, which is thereby the one last used. -/
def findRetired
    (b : Book)
    (now : Nat)
    (id : OrderId) : Book × Option Order :=
  let (retired, o?) := b.retired.get now id
  ({ b with retired }, o?)

/- An active order, or else a retired one. -/
def find
    (b : Book)
    (now : Nat)
    (id : OrderId) : Book × Option Order :=
  match b.active[id]? with
  | some o => (b, some o)
  | none => b.findRetired now id

/- Put a new record in the place of the order of its name. -/
def write (b : Book) (o : Order) : Book :=
  if b.isActive o.id then
    { b with active := b.active.insert o.id o }
  else
    { b with retired := b.retired.modify o.id fun _ => o }

------------------------------------------------------------
-- The whole book
------------------------------------------------------------

/- Drop the retired orders that have expired. -/
def purge (b : Book) (now : Nat) : Book × Nat :=
  let (retired, dropped) := b.retired.purge now
  ({ b with retired }, dropped)

/- The active orders in the order of their names. -/
def activeOrders (b : Book) : List (OrderId × Order) :=
  b.active.toList

/- The retired orders in the order of their names. -/
def retiredOrders
    (b : Book)
    (now : Nat) : List (OrderId × Order) :=
  let entries := b.retired.liveEntries now
  (entries.foldl (fun found e => found.insert e.key e.value)
    (∅ : Std.ExtTreeMap OrderId Order compare)).toList

def activeCount (b : Book) : Nat :=
  b.active.size

def retiredCount (b : Book) (now : Nat) : Nat :=
  b.retired.size now

end Book

end OrderWatch
