/-
  Enumerations that are written as words.

  A type of words lists its values once, each with a word of
  its own; reading looks the word up in that list.

  Key definitions:
    * `Worded`
    * `Worded.read?`
    * `Worded.place`
-/

namespace OrderWatch

/- A type whose values are written as words. -/
class Worded (α : Type) where
  all : List α
  word : α → String

namespace Worded

variable {α : Type} [Worded α]

/- The value that a word stands for. -/
def read? (s : String) : Option α :=
  all.find? fun a => word a == s

/- The place of a value in the list of all values. -/
def place [BEq α] (a : α) : Nat :=
  (all : List α).idxOf a

end Worded

end OrderWatch
