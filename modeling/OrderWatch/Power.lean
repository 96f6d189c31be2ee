/-
  Powers of whole numbers.

  A power is always taken by the operation that whole numbers
  bring with them, also where a library knows another one for
  the same type.  So an amount means the same wherever it is
  written down.

  Main declarations:
    * `ten_pow_pos`
    * `ten_pow_split`
-/

attribute [instance (100000)] instPowNat
attribute [default_instance (100000)] instPowNat

namespace OrderWatch

theorem ten_pow_pos
    (k : Nat) :
    0 < 10 ^ k :=
  Nat.pow_pos (by decide)

/- A power is taken in two steps. -/
theorem ten_pow_split
    {i j k : Nat}
    (hFirst : i ≤ j)
    (hSecond : j ≤ k) :
    10 ^ (k - i) = 10 ^ (j - i) * 10 ^ (k - j) := by
  rw [← Nat.pow_add]
  congr 1
  omega

end OrderWatch
