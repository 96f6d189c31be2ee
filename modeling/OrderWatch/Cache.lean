import OrderWatch.Cache.Chain

/-
  A bounded cache whose entries live for a limited time.

  Entries lie in numbered slots, and slots are used again.
  Two chains run through the slots: `recency` from the entry
  last used to the one longest unused, and `age` from the
  entry last put to the oldest.  An expired entry stays in
  its slot until it is met by a look-up, by a purge, or by a
  put that needs room; it counts as absent meanwhile.

  Times are nanoseconds of a clock that the caller reads.

  Key definitions:
    * `Cache`
    * `Cache.put`
    * `Cache.get`
    * `Cache.remove`
    * `Cache.purge`
    * `Cache.size`
    * `Cache.liveEntries`
-/

namespace OrderWatch

namespace Cache

structure Entry (K V : Type) where
  key : K
  value : V
  insertedAt : Nat
  lastAccess : Nat
deriving DecidableEq, Repr

end Cache

structure Cache (K V : Type) [Ord K] where
  capacity : Nat
  /- How long an entry lives. -/
  ttl : Nat
  /- The slot of each key. -/
  index : Std.ExtTreeMap K Nat compare
  slots : Array (Option (Cache.Entry K V))
  /- The empty slots, the one to be used next in front. -/
  free : List Nat
  recency : Chain
  age : Chain

namespace Cache

variable {K V : Type} [Ord K]

/- A cache without entries. -/
def empty (capacity ttl : Nat) : Cache K V :=
  { capacity, ttl, index := ∅, slots := #[], free := []
    recency := ∅, age := ∅ }

------------------------------------------------------------
-- Slots
------------------------------------------------------------

/- The entry of a slot, if it is occupied. -/
def entry? (c : Cache K V) (i : Nat) : Option (Entry K V) :=
  c.slots[i]?.join

/- Whether an entry still lives. -/
def isLive (c : Cache K V) (now : Nat) (e : Entry K V) : Bool :=
  now - e.insertedAt < c.ttl

/- Whether the entry of a slot no longer lives. -/
def isExpired (c : Cache K V) (now i : Nat) : Bool :=
  !(c.entry? i).any (c.isLive now)

/- Change the entry of a slot. -/
def modifySlot
    (c : Cache K V)
    (i : Nat)
    (f : Entry K V → Entry K V) : Cache K V :=
  { c with slots := c.slots.modify i (Option.map f) }

/- Put an entry into an empty slot, a new one if need be. -/
def allocate
    (c : Cache K V)
    (e : Entry K V) : Cache K V × Nat :=
  match c.free with
  | i :: free =>
      ({ c with slots := c.slots.setIfInBounds i (some e), free },
        i)
  | [] => ({ c with slots := c.slots.push (some e) }, c.slots.size)

/- The oldest entries, as long as they are expired. -/
def expiredSlots (c : Cache K V) (now : Nat) : List Nat :=
  c.age.backwardWhile (c.isExpired now)

------------------------------------------------------------
-- Reading
------------------------------------------------------------

/- The number of entries, expired ones included. -/
def stored (c : Cache K V) : Nat :=
  c.index.size

/- The number of entries that live. -/
def size (c : Cache K V) (now : Nat) : Nat :=
  c.stored - (c.expiredSlots now).length

/- Whether no entry lives. -/
def isEmpty (c : Cache K V) (now : Nat) : Bool :=
  c.size now == 0

/- The living entries, the one last used first. -/
def liveEntries (c : Cache K V) (now : Nat) : List (Entry K V) :=
  (c.recency.forward.filterMap c.entry?).filter (c.isLive now)

variable [Std.TransOrd K]

/- The living entry of a key. -/
def live? (c : Cache K V) (now : Nat) (k : K) : Option (Entry K V) :=
  c.index[k]?.bind fun i => (c.entry? i).filter (c.isLive now)

/- The value of a key, its entry left as it is. -/
def peek (c : Cache K V) (now : Nat) (k : K) : Option V :=
  (c.live? now k).map Entry.value

def contains (c : Cache K V) (now : Nat) (k : K) : Bool :=
  (c.peek now k).isSome

/- When the entry of a key was last put. -/
def insertedAt (c : Cache K V) (now : Nat) (k : K) : Option Nat :=
  (c.live? now k).map Entry.insertedAt

/- When the entry of a key was last used. -/
def lastAccess (c : Cache K V) (now : Nat) (k : K) : Option Nat :=
  (c.live? now k).map Entry.lastAccess

------------------------------------------------------------
-- Dropping
------------------------------------------------------------

/- Empty a slot. -/
def drop (c : Cache K V) (i : Nat) : Cache K V :=
  match c.entry? i with
  | some e =>
      { c with
        index := c.index.erase e.key
        slots := c.slots.setIfInBounds i none
        free := i :: c.free
        recency := c.recency.detach i
        age := c.age.detach i }
  | none => c

/- Drop the entries longest unused, up to a number of them. -/
def evict : Nat → Cache K V → Cache K V
  | 0, c => c
  | n + 1, c =>
      match c.recency.last with
      | some i => evict n (c.drop i)
      | none => c

/- Drop the expired entries, and count them. -/
def purge (c : Cache K V) (now : Nat) : Cache K V × Nat :=
  let slots := c.expiredSlots now
  (slots.foldl drop c, slots.length)

/-
  Drop a key.  Its value is answered if the entry has still
  been alive.
-/
def remove
    (c : Cache K V)
    (now : Nat)
    (k : K) : Cache K V × Option V :=
  match c.index[k]? with
  | some i => (c.drop i, c.peek now k)
  | none => (c, none)

/- Drop everything. -/
def clear (c : Cache K V) : Cache K V :=
  empty c.capacity c.ttl

------------------------------------------------------------
-- Using
------------------------------------------------------------

/-
  Make room: if there are too many entries, the expired ones
  go, and then as many of those longest unused as needed.
-/
def shrink (c : Cache K V) (now : Nat) : Cache K V :=
  if c.stored > c.capacity then
    let c := (c.purge now).1
    evict (c.stored - c.capacity) c
  else
    c

/-
  Put a value under a key, as the newest entry and the one
  last used.  The answer is the number of entries dropped.
-/
def put
    (c : Cache K V)
    (now : Nat)
    (k : K)
    (v : V) : Cache K V × Nat :=
  match c.index[k]? with
  | some i =>
      let c := c.modifySlot i fun e => ⟨e.key, v, now, now⟩
      ({ c with
          recency := c.recency.toFront i
          age := (c.age.detach i).pushFront i },
        0)
  | none =>
      let (c, i) := c.allocate ⟨k, v, now, now⟩
      let c :=
        { c with
          index := c.index.insert k i
          recency := c.recency.pushFront i
          age := c.age.pushFront i }
      let kept := c.shrink now
      (kept, c.stored - kept.stored)

/-
  The value of a key, whose entry becomes the one last used.
  An expired entry is dropped.
-/
def get
    (c : Cache K V)
    (now : Nat)
    (k : K) : Cache K V × Option V :=
  match c.index[k]? with
  | some i =>
      if c.isExpired now i then
        (c.drop i, none)
      else
        let c := { c with recency := c.recency.toFront i }
        (c.modifySlot i fun e => { e with lastAccess := now },
          (c.entry? i).map Entry.value)
  | none => (c, none)

/-
  Change the value of a key in its place, expired or not; its
  times and its use stay as they are.
-/
def modify (c : Cache K V) (k : K) (f : V → V) : Cache K V :=
  match c.index[k]? with
  | some i => c.modifySlot i fun e => { e with value := f e.value }
  | none => c

end Cache

end OrderWatch
