import OrderWatch.Cache

/-
  A cache as a pile of entries, the one last used on top.

  The pile says what a cache does without saying how: it is
  one list, searched from end to end.  Requests to either of
  them come with the reading of the clock and are answered.

  Key definitions:
    * `Pile`
    * `Pile.put`, `Pile.get`, `Pile.purge`
    * `Cache.Request`, `Cache.Reply`
    * `Cache.serve`, `Pile.serve`
    * `Cache.run`, `Pile.run`
-/

namespace OrderWatch

------------------------------------------------------------
-- Requests
------------------------------------------------------------

namespace Cache

/- What can be asked of a cache. -/
inductive Request (K V : Type) where
  | put (k : K) (v : V)
  | get (k : K)
  | peek (k : K)
  | contains (k : K)
  | remove (k : K)
  | size
  | isEmpty
  | living
  | insertedAt (k : K)
  | lastAccess (k : K)
  | purge
  | clear
deriving DecidableEq, Repr

/- What is answered to a request. -/
inductive Reply (K V : Type) where
  | done
  | count (n : Nat)
  | flag (b : Bool)
  | time (t? : Option Nat)
  | value (v? : Option V)
  /- Keys with their values, the last used first. -/
  | pairs (kvs : List (K × V))
deriving DecidableEq, Repr

/- The key and the value of an entry. -/
def Entry.pair {K V : Type} (e : Entry K V) : K × V :=
  (e.key, e.value)

variable {K V : Type} [Ord K] [Std.TransOrd K]

/- Answer a request at some time. -/
def serve
    (c : Cache K V)
    (now : Nat) : Request K V → Cache K V × Reply K V
  | .put k v =>
      let (c, dropped) := c.put now k v
      (c, .count dropped)
  | .get k =>
      let (c, v?) := c.get now k
      (c, .value v?)
  | .peek k => (c, .value (c.peek now k))
  | .contains k => (c, .flag (c.contains now k))
  | .remove k =>
      let (c, v?) := c.remove now k
      (c, .value v?)
  | .size => (c, .count (c.size now))
  | .isEmpty => (c, .flag (c.isEmpty now))
  | .living => (c, .pairs ((c.liveEntries now).map Entry.pair))
  | .insertedAt k => (c, .time (c.insertedAt now k))
  | .lastAccess k => (c, .time (c.lastAccess now k))
  | .purge =>
      let (c, dropped) := c.purge now
      (c, .count dropped)
  | .clear => (c.clear, .done)

/- Answer requests, each at its own time. -/
def run
    (c : Cache K V) :
    List (Nat × Request K V) → Cache K V × List (Reply K V)
  | [] => (c, [])
  | (now, request) :: rest =>
      let (c, reply) := c.serve now request
      let (c, replies) := run c rest
      (c, reply :: replies)

end Cache

------------------------------------------------------------
-- Piles
------------------------------------------------------------

structure Pile (K V : Type) where
  capacity : Nat
  /- How long an entry lives. -/
  ttl : Nat
  /- The entries, expired ones included, the last used first. -/
  entries : List (Cache.Entry K V)

namespace Pile

open Cache (Entry Request Reply)

variable {K V : Type}

/- A pile without entries. -/
def empty (capacity ttl : Nat) : Pile K V :=
  ⟨capacity, ttl, []⟩

/- Whether an entry still lives. -/
def isLive (p : Pile K V) (now : Nat) (e : Entry K V) : Bool :=
  now - e.insertedAt < p.ttl

/- The entries that live. -/
def living (p : Pile K V) (now : Nat) : List (Entry K V) :=
  p.entries.filter (p.isLive now)

/- Drop the expired entries, and count them. -/
def purge (p : Pile K V) (now : Nat) : Pile K V × Nat :=
  ({ p with entries := p.living now },
    p.entries.length - (p.living now).length)

/-
  If there are too many entries, the expired ones go, and
  then those at the bottom.
-/
def shrink (p : Pile K V) (now : Nat) : Pile K V :=
  if p.entries.length > p.capacity then
    { p with entries := (p.living now).take p.capacity }
  else
    p

variable [DecidableEq K]

/- The entry of a key. -/
def find? (p : Pile K V) (k : K) : Option (Entry K V) :=
  p.entries.find? fun e => e.key = k

/- The entry of a key, if it lives. -/
def live? (p : Pile K V) (now : Nat) (k : K) : Option (Entry K V) :=
  (p.find? k).filter (p.isLive now)

/- The entries of the other keys. -/
def without (p : Pile K V) (k : K) : List (Entry K V) :=
  p.entries.filter fun e => e.key ≠ k

/-
  Put a value on top.  For a key that is there already, it
  takes the place of the old one; otherwise there may be too
  many entries now, and those that go are counted.
-/
def put
    (p : Pile K V)
    (now : Nat)
    (k : K)
    (v : V) : Pile K V × Nat :=
  let heaped :=
    { p with entries := ⟨k, v, now, now⟩ :: p.without k }
  match p.find? k with
  | some _ => (heaped, 0)
  | none =>
      let kept := heaped.shrink now
      (kept, heaped.entries.length - kept.entries.length)

/-
  The value of a key, whose entry comes on top.  An expired
  entry is dropped.
-/
def get
    (p : Pile K V)
    (now : Nat)
    (k : K) : Pile K V × Option V :=
  match p.find? k with
  | some e =>
      if p.isLive now e then
        ({ p with
            entries := { e with lastAccess := now } :: p.without k },
          some e.value)
      else
        ({ p with entries := p.without k }, none)
  | none => (p, none)

/- Drop a key.  Its value is answered if it has been alive. -/
def remove
    (p : Pile K V)
    (now : Nat)
    (k : K) : Pile K V × Option V :=
  ({ p with entries := p.without k },
    (p.live? now k).map Entry.value)

/- Answer a request at some time. -/
def serve
    (p : Pile K V)
    (now : Nat) : Request K V → Pile K V × Reply K V
  | .put k v =>
      let (p, dropped) := p.put now k v
      (p, .count dropped)
  | .get k =>
      let (p, v?) := p.get now k
      (p, .value v?)
  | .peek k => (p, .value ((p.live? now k).map Entry.value))
  | .contains k => (p, .flag (p.live? now k).isSome)
  | .remove k =>
      let (p, v?) := p.remove now k
      (p, .value v?)
  | .size => (p, .count (p.living now).length)
  | .isEmpty => (p, .flag (p.living now).isEmpty)
  | .living => (p, .pairs ((p.living now).map Entry.pair))
  | .insertedAt k =>
      (p, .time ((p.live? now k).map Entry.insertedAt))
  | .lastAccess k =>
      (p, .time ((p.live? now k).map Entry.lastAccess))
  | .purge =>
      let (p, dropped) := p.purge now
      (p, .count dropped)
  | .clear => (empty p.capacity p.ttl, .done)

/- Answer requests, each at its own time. -/
def run
    (p : Pile K V) :
    List (Nat × Request K V) → Pile K V × List (Reply K V)
  | [] => (p, [])
  | (now, request) :: rest =>
      let (p, reply) := p.serve now request
      let (p, replies) := run p rest
      (p, reply :: replies)

end Pile

end OrderWatch
