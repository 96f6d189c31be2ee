/-
  Placeholders for environment variables in a text.

  `${NAME}` stands for the value of a variable, and
  `${NAME:-DEFAULT}` for that value or else the default.  A
  variable without a value, or with an empty one, leaves the
  default, or nothing.  A text is gone through once, from the
  left; what is put in is not looked at again, and what is no
  placeholder is left as it is.

  Key definitions:
    * `Placeholder`
    * `Placeholder.read?`
    * `Placeholder.split`
    * `Placeholder.interpolate`
-/

namespace OrderWatch

structure Placeholder where
  name : List Char
  /- What is put in for a variable without a value. -/
  default : List Char
deriving DecidableEq, Repr

namespace Placeholder

------------------------------------------------------------
-- Reading
------------------------------------------------------------

def isNameStart (c : Char) : Bool :=
  c.isAlpha || c = '_'

def isNameChar (c : Char) : Bool :=
  c.isAlphanum || c = '_'

/- The end of a placeholder after its name: its default. -/
def readDefault? : List Char → Option (List Char × List Char)
  | '\x7d' :: rest => some ([], rest)
  | ':' :: '-' :: rest =>
      match rest.dropWhile (· != '\x7d') with
      | _ :: after =>
          some (rest.takeWhile (· != '\x7d'), after)
      | [] => none
  | _ => none

/- The placeholder at the start of a text, and the rest. -/
def read? : List Char → Option (Placeholder × List Char)
  | '$' :: '\x7b' :: c :: rest =>
      if isNameStart c then
        match readDefault? (rest.dropWhile isNameChar) with
        | some (default, after) =>
            some (⟨c :: rest.takeWhile isNameChar, default⟩, after)
        | none => none
      else
        none
  | _ => none

theorem length_dropWhile_le
    {α : Type}
    (p : α → Bool)
    (xs : List α) :
    (xs.dropWhile p).length ≤ xs.length :=
  (List.dropWhile_sublist p).length_le

/- What follows a default is shorter. -/
theorem length_of_readDefault?
    {cs default rest : List Char}
    (h : readDefault? cs = some (default, rest)) :
    rest.length < cs.length := by
  unfold readDefault? at h
  split at h
  · simp at h
    simp [h.2]
  · rename_i text
    split at h
    · rename_i after heq
      have hLe :=
        length_dropWhile_le (· != '\x7d') text
      rw [heq] at hLe
      simp at h hLe
      rw [← h.2]
      simp
      omega
    · simp at h
  · simp at h

/- What follows a placeholder is shorter. -/
theorem length_of_read?
    {cs rest : List Char}
    {p : Placeholder}
    (h : read? cs = some (p, rest)) :
    rest.length < cs.length := by
  unfold read? at h
  split at h
  · rename_i c text
    split at h
    · split at h
      · rename_i default after heq
        have hLt := length_of_readDefault? heq
        have hLe := length_dropWhile_le isNameChar text
        simp at h
        rw [← h.2]
        simp
        omega
      · simp at h
    · simp at h
  · simp at h

------------------------------------------------------------
-- Splitting
------------------------------------------------------------

/- A part of a text. -/
inductive Piece where
  | character (c : Char)
  | placeholder (p : Placeholder)
deriving DecidableEq, Repr

/-
  A text as placeholders and the characters between them; of
  two that overlap the one farther left counts.
-/
def split (cs : List Char) : List Piece :=
  match _h : read? cs with
  | some (p, rest) => .placeholder p :: split rest
  | none =>
      match cs with
      | c :: rest => .character c :: split rest
      | [] => []
termination_by cs.length
decreasing_by
  · exact length_of_read? _h
  · simp

------------------------------------------------------------
-- Putting values in
------------------------------------------------------------

/- The variables that are set, with their values. -/
abbrev Environment :=
  String → Option String

/- What is put in for a placeholder. -/
def value (env : Environment) (p : Placeholder) : List Char :=
  match env (String.ofList p.name) with
  | some v => if v.isEmpty then p.default else v.toList
  | none => p.default

/- A text with the values of its placeholders put in. -/
def interpolate
    (env : Environment)
    (cs : List Char) : List Char :=
  (split cs).flatMap fun
    | .character c => [c]
    | .placeholder p => p.value env

end Placeholder

end OrderWatch
