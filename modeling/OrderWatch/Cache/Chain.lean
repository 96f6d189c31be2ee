import Std.Data.ExtTreeMap

/-
  A chain of numbered slots, linked in both directions.

  A slot is put in front or taken out at the cost of a few
  links, wherever it stands.  Only the slots of the chain
  have links; those at its ends are known.

  Key definitions:
    * `Chain`
    * `Chain.pushFront`
    * `Chain.detach`
    * `Chain.toFront`
    * `Chain.forward`, `Chain.backward`
-/

namespace OrderWatch

/- The neighbours of a slot. -/
structure Link where
  before : Option Nat
  after : Option Nat
deriving DecidableEq, Repr, Inhabited

structure Chain where
  links : Std.ExtTreeMap Nat Link compare
  first : Option Nat
  last : Option Nat

namespace Chain

instance : EmptyCollection Chain :=
  ⟨⟨∅, none, none⟩⟩

/- Change the link of a slot, if there is one. -/
def relink
    (links : Std.ExtTreeMap Nat Link compare)
    (f : Link → Link) :
    Option Nat → Std.ExtTreeMap Nat Link compare
  | some i => links.modify i f
  | none => links

/- Put a slot that is not in the chain in front of it. -/
def pushFront (c : Chain) (i : Nat) : Chain :=
  let links :=
    relink c.links (fun l => { l with before := some i }) c.first
  { links := links.insert i ⟨none, c.first⟩
    first := some i
    last := c.last.or (some i) }

/- Take a slot out of the chain, and join its neighbours. -/
def detach (c : Chain) (i : Nat) : Chain :=
  match c.links[i]? with
  | some l =>
      let links :=
        relink (c.links.erase i)
          (fun k => { k with after := l.after }) l.before
      { links :=
          relink links (fun k => { k with before := l.before })
            l.after
        first := if l.before.isNone then l.after else c.first
        last := if l.after.isNone then l.before else c.last }
  | none => c

/- Move a slot of the chain to its front. -/
def toFront (c : Chain) (i : Nat) : Chain :=
  if c.first = some i then
    c
  else
    (c.detach i).pushFront i

/-
  The slots that are met from one of them on, in a direction,
  as long as they pass a test; at most as many as given.
-/
def walk
    (c : Chain)
    (direction : Link → Option Nat)
    (p : Nat → Bool) : Nat → Option Nat → List Nat
  | n + 1, some i =>
      if p i then
        i :: c.walk direction p n (c.links[i]?.bind direction)
      else
        []
  | _, _ => []

/- The slots from the first to the last. -/
def forward (c : Chain) : List Nat :=
  c.walk Link.after (fun _ => true) c.links.size c.first

/- The slots from the last on, as long as they pass a test. -/
def backwardWhile (c : Chain) (p : Nat → Bool) : List Nat :=
  c.walk Link.before p c.links.size c.last

/- The slots from the last to the first. -/
def backward (c : Chain) : List Nat :=
  c.backwardWhile fun _ => true

end Chain

end OrderWatch
