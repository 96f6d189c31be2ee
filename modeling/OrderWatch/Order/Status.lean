import OrderWatch.Text.Word

/-
  The statuses of an order and the moves between them.

  An order is first pending, then open, with or without
  fills, and at last cancelled, filled or failed for good.
  An order with fills may go back to open; no order becomes
  pending again, and none leaves a terminal status.

  Key definitions:
    * `Status`
    * `Status.next`
    * `Status.canBecome`
    * `Status.isTerminal`
-/

namespace OrderWatch

inductive Status where
  | pendingCreate
  | open
  | partiallyFilled
  | cancelled
  | filled
  | failed
deriving DecidableEq, Repr, Inhabited

namespace Status

instance : Worded Status where
  all :=
    [.pendingCreate, .open, .partiallyFilled, .cancelled,
      .filled, .failed]
  word
    | .pendingCreate => "PENDING_CREATE"
    | .open => "OPEN"
    | .partiallyFilled => "PARTIALLY_FILLED"
    | .cancelled => "CANCELLED"
    | .filled => "FILLED"
    | .failed => "FAILED"

instance : ToString Status :=
  ⟨Worded.word⟩

/- Whether an order stays in the status for good. -/
def isTerminal : Status → Bool
  | .cancelled | .filled | .failed => true
  | .pendingCreate | .open | .partiallyFilled => false

/- Whether an order may still be filled or cancelled. -/
def isOpen (s : Status) : Bool :=
  !s.isTerminal

/- How far an order has come: pending, open or done. -/
def rank : Status → Nat
  | .pendingCreate => 0
  | .open | .partiallyFilled => 1
  | .cancelled | .filled | .failed => 2

/- The statuses that an order may move to. -/
def next : Status → List Status
  | .pendingCreate =>
      [.open, .partiallyFilled, .filled, .cancelled, .failed]
  | .open => [.partiallyFilled, .filled, .cancelled, .failed]
  | .partiallyFilled => [.open, .filled, .cancelled, .failed]
  | .cancelled | .filled | .failed => []

/- Whether an order may move from one status to another. -/
def canBecome (a b : Status) : Bool :=
  b ∈ a.next

/- No move leads back. -/
theorem rank_le_of_canBecome
    {a b : Status}
    (h : a.canBecome b = true) :
    a.rank ≤ b.rank := by
  cases a <;> cases b <;> simp_all [canBecome, next, rank]

/- A terminal status is one without a move. -/
theorem isTerminal_iff_next
    (s : Status) :
    s.isTerminal = true ↔ s.next = [] := by
  cases s <;> simp [isTerminal, next]

end Status

end OrderWatch
