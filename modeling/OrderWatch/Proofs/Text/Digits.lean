import Mathlib.Data.List.Basic
import Mathlib.Data.List.TakeDrop
import OrderWatch.Text.Digits

/-
  Digits that are written are digits that can be read.

  A text of digits is read by going on from a number, ten
  times the number and one digit more at each step.  Zeros in
  front do not count, so a padded number is still the number,
  and a number that fits its width has exactly that width.

  Main declarations:
    * `Text.extended`
    * `Text.ofDigits_natText`, `Text.ofDigits_padded`
    * `Text.length_padded`
    * `Text.spanDigits_append`
    * `Text.pointed_split`
-/

namespace OrderWatch

namespace Text

variable {c : Char} {cs ds : List Char} {n width : Nat}

/- A reader that has read goes on with what it has read. -/
theorem bind_of_eq
    {α β : Type}
    {x : Option α}
    {a : α}
    {next : α → Option β}
    {y : Option β}
    (hRead : x = some a)
    (hNext : next a = y) :
    x >>= next = y := by
  rw [hRead]
  exact hNext

------------------------------------------------------------
-- Digits
------------------------------------------------------------

theorem isDigit_eq (c : Char) : isDigit c = c.isDigit := by
  unfold isDigit digit? Char.isDigit
  simp only [Char.le_def]
  split <;> simp_all

theorem digit?_of_isDigit
    (hDigit : isDigit c = true) :
    digit? c = some (c.toNat - '0'.toNat) := by
  unfold isDigit digit? at hDigit
  unfold digit?
  split at hDigit
  · rename_i hRange
    rw [if_pos hRange]
  · contradiction

/- A number to which digits are appended. -/
def extended (n : Nat) (cs : List Char) : Nat :=
  cs.foldl (fun n c => n * 10 + (digit? c).getD 0) n

theorem ofDigits_eq_extended
    (cs : List Char) :
    ofDigits cs = extended 0 cs :=
  rfl

theorem extended_cons
    (hDigit : isDigit c = true)
    (n : Nat)
    (cs : List Char) :
    extended n (c :: cs) =
      extended (n * 10 + (c.toNat - '0'.toNat)) cs := by
  unfold extended
  rw [List.foldl_cons, digit?_of_isDigit hDigit,
    Option.getD_some]

theorem extended_append
    (n : Nat)
    (cs ds : List Char) :
    extended n (cs ++ ds) = extended (extended n cs) ds :=
  List.foldl_append

/- A number does not become smaller by more digits. -/
theorem le_extended
    (n : Nat)
    (cs : List Char) :
    n ≤ extended n cs := by
  induction cs generalizing n with
  | nil => exact Nat.le_refl n
  | cons c cs ih =>
      have hNext := ih (n * 10 + (digit? c).getD 0)
      have hStep : extended n (c :: cs) =
          extended (n * 10 + (digit? c).getD 0) cs := rfl
      omega

/- Digits are read as the library reads them. -/
theorem extended_eq_ofDigitChars
    (hDigits : ∀ c ∈ cs, isDigit c = true)
    (n : Nat) :
    extended n cs = Nat.ofDigitChars 10 cs n := by
  induction cs generalizing n with
  | nil => rfl
  | cons c cs ih =>
      have hFirst : isDigit c = true := hDigits c (by simp)
      rw [extended_cons hFirst, ih (by simp_all),
        Nat.ofDigitChars_cons, Nat.mul_comm]

/- The leading digits of a text, up to something else. -/
theorem spanDigits_append
    (hDigits : ∀ c ∈ ds, isDigit c = true)
    (hEnd : ∀ c ∈ cs.head?, isDigit c = false) :
    spanDigits (ds ++ cs) = (ds, cs) := by
  unfold spanDigits
  rw [List.span_eq_takeWhile_dropWhile,
    List.takeWhile_append_of_pos hDigits,
    List.dropWhile_append_of_pos hDigits]
  cases cs with
  | nil => simp
  | cons c cs =>
      have hFirst : isDigit c = false := hEnd c (by simp)
      simp [hFirst]

------------------------------------------------------------
-- Numbers
------------------------------------------------------------

theorem isDigit_of_mem_natText
    (hMem : c ∈ natText n) :
    isDigit c = true := by
  rw [isDigit_eq]
  exact Nat.isDigit_of_mem_toDigits (by decide) (by decide) hMem

theorem natText_ne_nil
    (n : Nat) :
    natText n ≠ [] :=
  Nat.toDigits_ne_nil

theorem ofDigits_natText
    (n : Nat) :
    ofDigits (natText n) = n := by
  rw [ofDigits_eq_extended,
    extended_eq_ofDigitChars fun _ => isDigit_of_mem_natText]
  exact Nat.ofDigitChars_ten_toDigits

/- No number but zero starts with a zero. -/
theorem head?_natText
    (hPositive : 0 < n) :
    (natText n).head? ≠ some '0' := by
  induction n using Nat.strongRecOn with
  | ind n ih =>
      unfold natText
      by_cases hShort : n < 10
      · rw [Nat.toDigits_of_lt_base hShort, List.head?_cons,
          Ne, Option.some_inj, Nat.digitChar_eq_zero]
        omega
      · have hTens := ih (n / 10) (by omega) (by omega)
        unfold natText at hTens
        rw [Nat.toDigits_of_base_le (by decide) (by omega),
          List.head?_append_of_ne_nil _ Nat.toDigits_ne_nil]
        exact hTens

------------------------------------------------------------
-- Zeros in front
------------------------------------------------------------

theorem padded_eq
    (width n : Nat) :
    padded width n =
      List.replicate (width - (natText n).length) '0'
        ++ natText n :=
  rfl

theorem isDigit_of_mem_padded
    (hMem : c ∈ padded width n) :
    isDigit c = true := by
  rw [padded_eq, List.mem_append] at hMem
  rcases hMem with hZero | hDigit
  · rw [List.eq_of_mem_replicate hZero]
    decide
  · exact isDigit_of_mem_natText hDigit

theorem ofDigits_padded
    (width n : Nat) :
    ofDigits (padded width n) = n := by
  rw [ofDigits_eq_extended,
    extended_eq_ofDigitChars fun _ => isDigit_of_mem_padded,
    padded_eq, Nat.ofDigitChars_append,
    Nat.ofDigitChars_replicate_zero, Nat.mul_zero]
  exact Nat.ofDigitChars_ten_toDigits

/- A number has its width if it fits. -/
theorem length_padded
    (hWidth : 0 < width)
    (hFits : n < 10 ^ width) :
    (padded width n).length = width := by
  have hLength : (natText n).length ≤ width :=
    (Nat.length_toDigits_le_iff (by decide) hWidth).mpr hFits
  rw [padded_eq, List.length_append, List.length_replicate]
  omega

theorem width_le_length_padded
    (width n : Nat) :
    width ≤ (padded width n).length := by
  rw [padded_eq, List.length_append, List.length_replicate]
  omega

------------------------------------------------------------
-- Points
------------------------------------------------------------

/-
  A number with a point is a number without one, and digits
  before the point and behind it.
-/
theorem pointed_split
    (n places : Nat) :
    ∃ whole fraction,
      whole ≠ [] ∧ fraction.length = places ∧
        (∀ c ∈ whole ++ fraction, isDigit c = true) ∧
        ofDigits (whole ++ fraction) = n ∧
        pointed n places =
          if places = 0 then
            whole
          else
            whole ++ '.' :: fraction := by
  let digits := padded (places + 1) n
  let cut := digits.length - places
  have hLong : places + 1 ≤ digits.length :=
    width_le_length_padded (places + 1) n
  refine ⟨digits.take cut, digits.drop cut, ?_, ?_, ?_, ?_, ?_⟩
  · rw [Ne, List.take_eq_nil_iff]
    rintro (hZero | hNil)
    · omega
    · rw [hNil, List.length_nil] at hLong
      omega
  · rw [List.length_drop]
    omega
  · rw [List.take_append_drop]
    exact fun c => isDigit_of_mem_padded
  · rw [List.take_append_drop]
    exact ofDigits_padded (places + 1) n
  · unfold pointed
    by_cases hNone : places = 0
    · have hAll : cut = digits.length := by omega
      rw [if_pos hNone, if_pos hNone, hAll, List.take_length]
    · rw [if_neg hNone, if_neg hNone]

end Text

end OrderWatch
