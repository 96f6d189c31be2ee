import OrderWatch.Proofs.Desk.Records

/-
  What holds of the latest records during a run.

  The latest record of a name is the one that an update of
  the name would find if no record expired.  What is known of
  the latest records may change with every action, as the
  things change that they are compared with.  An update
  changes one of them, a start begins one, and all else that
  can happen to a latest record is that it is let go of.

  Main declarations:
    * `Book.Latest`
    * `Desk.latest_process`
    * `Desk.latest_unknown`
-/

namespace OrderWatch

variable {P Q : OrderId → Order → Prop}

------------------------------------------------------------
-- Books
------------------------------------------------------------

namespace Book

variable {b d : Book} {o : Order}

/- The latest record of every name has a property. -/
def Latest (P : OrderId → Order → Prop) (b : Book) : Prop :=
  ∀ id o, b.latest? id = some o → P id o

namespace Latest

theorem empty
    (P : OrderId → Order → Prop)
    (capacity ttl : Nat) :
    (Book.empty capacity ttl).Latest P := by
  intro id o hLatest
  have hNone :=
    (Book.All.empty (fun _ _ => False) capacity ttl).holds id o
      (records_of_latest? hLatest)
  contradiction

theorem mono
    (h : b.Latest P)
    (hImp : ∀ id o, P id o → Q id o) :
    b.Latest Q :=
  fun id o hLatest => hImp id o (h id o hLatest)

/- Letting go of records leaves the others as they are. -/
theorem fades
    (h : b.Latest P)
    (hFades : b.Fades d) :
    d.Latest P := by
  intro id o hLatest
  rcases hFades.latest id with hNone | hSame
  · rw [hNone] at hLatest
    contradiction
  · exact h id o (hSame ▸ hLatest)

theorem start
    (h : b.Latest P)
    (hStarted : Q o.id o)
    (hOthers : ∀ id p, id ≠ o.id → P id p → Q id p) :
    (b.start o).Latest Q := by
  intro id p hLatest
  rw [latest?_start] at hLatest
  by_cases hSame : id = o.id
  · rw [if_pos hSame] at hLatest
    rw [hSame, ← Option.some.inj hLatest]
    exact hStarted
  · rw [if_neg hSame] at hLatest
    exact hOthers id p hSame (h id p hLatest)

/- What is found is the latest record of its name. -/
theorem of_find
    (h : b.Latest P)
    (hWhole : b.Whole)
    {now : Nat}
    {id : OrderId}
    (hFound : (b.find now id).2 = some o) :
    P id o :=
  h id o (latest?_of_find hWhole hFound).1

end Latest

end Book

------------------------------------------------------------
-- Desks
------------------------------------------------------------

namespace Desk

variable {L μ : Type} {hear : Hearing L μ} {d : Desk L μ}
variable {u : Update} {o : Order}

/- An update of a record that is found changes this one. -/
theorem latest_process
    (hQuiet : hear.Quiet)
    (hWhole : d.tracker.book.Whole)
    (h : d.tracker.book.Latest P)
    (hOwn : o.id = u.orderId)
    (hFound :
      (d.tracker.book.find d.tracker.now u.orderId).2 =
        some o)
    (hUpdated :
      Q u.orderId
        (o.respond u d.tracker.clock.now d.tracker.policy).1)
    (hOthers : ∀ id p, id ≠ u.orderId → P id p → Q id p) :
    (d.process hear u).1.tracker.book.Latest Q := by
  intro id p hLatest
  -- A record that has been dropped is not the latest one.
  rcases latest?_process hQuiet hWhole hOwn hFound id with
    hNone | hAfter
  · rw [hNone] at hLatest
    contradiction
  rw [hLatest] at hAfter
  by_cases hSame : id = u.orderId
  · rw [if_pos hSame] at hAfter
    rw [hSame, Option.some.inj hAfter]
    exact hUpdated
  · rw [if_neg hSame] at hAfter
    exact hOthers id p hSame (h id p hAfter.symm)

/- An update that finds no record changes none. -/
theorem latest_unknown
    (hear : Hearing L μ)
    (hWhole : d.tracker.book.Whole)
    (h : d.tracker.book.Latest P)
    (hNone :
      (d.tracker.book.find d.tracker.now u.orderId).2 = none) :
    (d.process hear u).1.tracker.book.Latest P := by
  have hCore := (process_unknown hear hNone).1
  rw [Tracker.book_of_core hCore]
  exact
    h.fades (Book.fades_find hWhole d.tracker.now u.orderId)

end Desk

end OrderWatch
