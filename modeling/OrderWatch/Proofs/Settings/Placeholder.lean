import OrderWatch.Settings.Placeholder
import Mathlib.Data.List.TakeWhile
import Mathlib.Tactic.Tauto

/-
  What becomes of a text with placeholders.

  How a placeholder is spelled is said here by a grammar of
  its own.  At any place of a text at most one begins, so
  there is one way to go through the text from the left: up
  to the first place where one begins, past it, and on from
  there.  What is put in stands in the places of those that
  are met in this way, and the rest is left as it is.

  Main declarations:
    * `Placeholder.IsName`, `Placeholder.Spells`
    * `Placeholder.read?_eq_some_iff`
    * `Placeholder.Divides`, `Placeholder.Divides.unique`
    * `Placeholder.split_divides`
    * `Placeholder.interpolate_in_one_pass`
-/

namespace OrderWatch

namespace Placeholder

------------------------------------------------------------
-- Spelling
------------------------------------------------------------

/- The characters that a name may begin with. -/
def BeginsName (c : Char) : Prop :=
  ('A' ≤ c ∧ c ≤ 'Z') ∨ ('a' ≤ c ∧ c ≤ 'z') ∨ c = '_'

/- The characters that it may go on with. -/
def ContinuesName (c : Char) : Prop :=
  BeginsName c ∨ ('0' ≤ c ∧ c ≤ '9')

def IsName : List Char → Prop
  | [] => False
  | c :: cs => BeginsName c ∧ ∀ d ∈ cs, ContinuesName d

/- How placeholders are written. -/
inductive Spells : Placeholder → List Char → Prop where
  | plain
      {name : List Char}
      (hName : IsName name) :
      Spells ⟨name, []⟩
        (['$', '\x7b'] ++ name ++ ['\x7d'])
  | withDefault
      {name default : List Char}
      (hName : IsName name)
      (hEnd : '\x7d' ∉ default) :
      Spells ⟨name, default⟩
        (['$', '\x7b'] ++ name ++ [':', '-'] ++ default
          ++ ['\x7d'])

/- A placeholder begins where a text begins. -/
def Begins (cs : List Char) : Prop :=
  ∃ p text rest, Spells p text ∧ cs = text ++ rest

------------------------------------------------------------
-- Characters
------------------------------------------------------------

theorem isNameStart_iff
    (c : Char) :
    isNameStart c = true ↔ BeginsName c := by
  unfold isNameStart BeginsName
  delta Char.isAlpha Char.isUpper Char.isLower
  simp [Char.le_def, or_assoc]

theorem isNameChar_iff
    (c : Char) :
    isNameChar c = true ↔ ContinuesName c := by
  have hStart := isNameStart_iff c
  unfold isNameStart at hStart
  unfold isNameChar ContinuesName
  rw [← hStart]
  delta Char.isAlphanum Char.isDigit
  simp [Char.le_def]
  tauto

theorem isNameChar_of_isName
    {c : Char}
    {cs : List Char}
    (hName : IsName (c :: cs)) :
    ∀ d ∈ cs, isNameChar d = true :=
  fun d hMem => (isNameChar_iff d).mpr (hName.2 d hMem)

------------------------------------------------------------
-- Reading
------------------------------------------------------------

/- The front of a text, up to the first character that fails. -/
theorem span_stop
    {p : Char → Bool}
    {body : List Char}
    {d : Char}
    (hInside : ∀ c ∈ body, p c = true)
    (hStop : p d = false)
    (after : List Char) :
    (body ++ d :: after).takeWhile p = body ∧
      (body ++ d :: after).dropWhile p = d :: after := by
  rw [List.takeWhile_append_of_pos hInside,
    List.dropWhile_append_of_pos hInside, List.takeWhile_cons,
    List.dropWhile_cons, hStop]
  exact ⟨List.append_nil body, rfl⟩

/- What is dropped before a character is what passes. -/
theorem span_split
    {p : Char → Bool}
    {text after : List Char}
    {d : Char}
    (hDropped : text.dropWhile p = d :: after) :
    text = text.takeWhile p ++ d :: after ∧ p d = false := by
  refine ⟨?_, ?_⟩
  · rw [← hDropped, List.takeWhile_append_dropWhile]
  · have hHead :=
      List.head?_dropWhile_not p text
    rw [hDropped] at hHead
    simpa using hHead

/- The ways that a placeholder can end after its name. -/
theorem readDefault?_eq_some_iff
    {cs default rest : List Char} :
    readDefault? cs = some (default, rest) ↔
      (default = [] ∧ cs = '\x7d' :: rest) ∨
        ('\x7d' ∉ default ∧
          cs = ':' :: '-' :: (default ++ '\x7d' :: rest)) := by
  constructor
  · intro hRead
    unfold readDefault? at hRead
    split at hRead
    · rcases Prod.mk.inj (Option.some.inj hRead) with
        ⟨hDefault, hRest⟩
      exact .inl ⟨hDefault.symm, by rw [hRest]⟩
    · rename_i text
      split at hRead
      · rename_i d after hDropped
        rcases Prod.mk.inj (Option.some.inj hRead) with
          ⟨hDefault, hRest⟩
        rcases span_split hDropped with ⟨hText, hStop⟩
        have hEnd : d = '\x7d' := by simpa using hStop
        subst hEnd
        refine .inr ⟨?_, ?_⟩
        · rw [← hDefault]
          intro hMem
          have hPass := List.mem_takeWhile_imp hMem
          simp at hPass
        · rw [← hDefault, ← hRest, ← hText]
      · contradiction
    · contradiction
  · rintro (⟨rfl, rfl⟩ | ⟨hEnd, rfl⟩)
    · rfl
    · have hInside :
          ∀ c ∈ default, (c != '\x7d') = true := by
        intro c hMem
        rw [bne_iff_ne]
        rintro rfl
        exact hEnd hMem
      have hStop : ('\x7d' != '\x7d') = false := by decide
      have hSpan := span_stop hInside hStop rest
      unfold readDefault?
      simp only [hSpan.1, hSpan.2]

/- What is read at the start of a text is what is spelled. -/
theorem read?_eq_some_iff
    {cs rest : List Char}
    {p : Placeholder} :
    read? cs = some (p, rest) ↔
      ∃ text, Spells p text ∧ cs = text ++ rest := by
  constructor
  · intro hRead
    unfold read? at hRead
    split at hRead
    · rename_i c text
      split at hRead
      · rename_i hStart
        split at hRead
        · rename_i default after hDefault
          rcases Prod.mk.inj (Option.some.inj hRead) with
            ⟨rfl, rfl⟩
          have hSplit :=
            List.takeWhile_append_dropWhile
              (p := isNameChar) (l := text)
          have hName : IsName (c :: text.takeWhile isNameChar) := by
            refine ⟨(isNameStart_iff c).mp hStart, ?_⟩
            intro d hMem
            rw [← isNameChar_iff]
            exact List.mem_takeWhile_imp hMem
          rcases readDefault?_eq_some_iff.mp hDefault with
            ⟨rfl, hEnd⟩ | ⟨hClosed, hEnd⟩
          · refine ⟨_, .plain hName, ?_⟩
            rw [hEnd] at hSplit
            simp [hSplit]
          · refine ⟨_, .withDefault hName hClosed, ?_⟩
            rw [hEnd] at hSplit
            simp [hSplit]
        · contradiction
      · contradiction
    · contradiction
  · rintro ⟨text, hSpells, rfl⟩
    cases hSpells with
    | plain hName =>
        rename_i name
        cases name with
        | nil => exact hName.elim
        | cons c cs =>
            have hStop : isNameChar '\x7d' = false := by decide
            have hSpan :=
              span_stop (isNameChar_of_isName hName) hStop rest
            have hStart := (isNameStart_iff c).mpr hName.1
            simp only [List.cons_append, List.nil_append,
              List.append_assoc]
            unfold read?
            simp only [hStart, hSpan.1, hSpan.2]
            rfl
    | withDefault hName hEnd =>
        rename_i name default
        cases name with
        | nil => exact hName.elim
        | cons c cs =>
            have hStop : isNameChar ':' = false := by decide
            have hSpan :=
              span_stop (isNameChar_of_isName hName) hStop
                ('-' :: (default ++ '\x7d' :: rest))
            have hStart := (isNameStart_iff c).mpr hName.1
            have hDefault :
                readDefault?
                    (':' :: '-' :: (default ++ '\x7d' :: rest)) =
                  some (default, rest) :=
              readDefault?_eq_some_iff.mpr (.inr ⟨hEnd, rfl⟩)
            simp only [List.cons_append, List.nil_append,
              List.append_assoc]
            unfold read?
            simp only [hStart, hSpan.1, hSpan.2, hDefault]
            rfl

theorem begins_iff
    (cs : List Char) :
    Begins cs ↔ ∃ p rest, read? cs = some (p, rest) := by
  unfold Begins
  constructor
  · rintro ⟨p, text, rest, hSpells, hText⟩
    exact ⟨p, rest, read?_eq_some_iff.mpr ⟨text, hSpells, hText⟩⟩
  · rintro ⟨p, rest, hRead⟩
    rcases read?_eq_some_iff.mp hRead with ⟨text, hSpells, hText⟩
    exact ⟨p, text, rest, hSpells, hText⟩

/- At one place one placeholder begins, with one spelling. -/
theorem spells_unique
    {p q : Placeholder}
    {text text' rest rest' : List Char}
    (hFirst : Spells p text)
    (hSecond : Spells q text')
    (hSame : text ++ rest = text' ++ rest') :
    p = q ∧ text = text' ∧ rest = rest' := by
  have hRead : read? (text ++ rest) = some (p, rest) :=
    read?_eq_some_iff.mpr ⟨text, hFirst, rfl⟩
  have hRead' : read? (text' ++ rest') = some (q, rest') :=
    read?_eq_some_iff.mpr ⟨text', hSecond, rfl⟩
  rw [hSame, hRead'] at hRead
  rcases Prod.mk.inj (Option.some.inj hRead) with ⟨rfl, rfl⟩
  exact ⟨rfl, List.append_cancel_right hSame, rfl⟩

------------------------------------------------------------
-- One way through a text
------------------------------------------------------------

/- A stretch of a text, and the placeholder after it. -/
structure Section where
  before : List Char
  placeholder : Placeholder
  /- How it is spelled there. -/
  text : List Char
deriving DecidableEq, Repr

/- No placeholder begins in the front part of a text. -/
def Plain (front rest : List Char) : Prop :=
  ∀ skipped left,
    front = skipped ++ left → left ≠ [] →
      ¬ Begins (left ++ rest)

/-
  A text goes on plainly up to the first placeholder, past it
  in the same way up to the next one, and after the last one
  plainly to its end.
-/
inductive Divides :
    List Char → List Section → List Char → Prop where
  | last
      {cs : List Char}
      (hPlain : Plain cs []) :
      Divides cs [] cs
  | next
      {before text rest tail : List Char}
      {p : Placeholder}
      {sections : List Section}
      (hPlain : Plain before (text ++ rest))
      (hSpells : Spells p text)
      (hRest : Divides rest sections tail) :
      Divides (before ++ (text ++ rest))
        (⟨before, p, text⟩ :: sections) tail

theorem plain_nil
    (rest : List Char) :
    Plain [] rest := by
  intro skipped left hSplit hSome
  exact absurd (List.append_eq_nil_iff.mp hSplit.symm).2 hSome

theorem Plain.cons
    {c : Char}
    {front rest : List Char}
    (hNone : ¬ Begins (c :: (front ++ rest)))
    (hPlain : Plain front rest) :
    Plain (c :: front) rest := by
  intro skipped left hSplit hSome
  cases skipped with
  | nil =>
      rw [List.nil_append] at hSplit
      rw [← hSplit]
      exact hNone
  | cons d skipped =>
      exact hPlain skipped left (List.cons.inj hSplit).2 hSome

/- Before the first placeholder there is none. -/
theorem Plain.not_longer
    {front rest more text after : List Char}
    {p : Placeholder}
    (hPlain : Plain (front ++ more) rest)
    (hSpells : Spells p text)
    (hText : more ++ rest = text ++ after) :
    more = [] := by
  by_contra hSome
  exact hPlain front more rfl hSome ⟨p, text, after, hSpells, hText⟩

theorem Spells.ne_nil
    {p : Placeholder}
    {text : List Char}
    (hSpells : Spells p text) :
    text ≠ [] := by
  cases hSpells <;> simp

/- A plain text has no placeholder in it. -/
theorem Plain.not_within
    {before text rest : List Char}
    {p : Placeholder}
    (hPlain : Plain (before ++ (text ++ rest)) [])
    (hSpells : Spells p text) :
    False := by
  have hNone : text ++ rest = [] :=
    hPlain.not_longer hSpells (List.append_nil _)
  exact hSpells.ne_nil (List.append_eq_nil_iff.mp hNone).1

/- The first placeholder is met at one place. -/
theorem Plain.same_length
    {before before' text text' rest rest' : List Char}
    {p q : Placeholder}
    (hPlain : Plain before (text ++ rest))
    (hPlain' : Plain before' (text' ++ rest'))
    (hSpells : Spells p text)
    (hSpells' : Spells q text')
    (hText : before ++ (text ++ rest) =
      before' ++ (text' ++ rest')) :
    before = before' ∧ text ++ rest = text' ++ rest' := by
  rcases List.append_eq_append_iff.mp hText with
    ⟨more, rfl, hRest⟩ | ⟨more, rfl, hRest⟩
  · have hNone := hPlain'.not_longer hSpells hRest.symm
    subst hNone
    exact ⟨(List.append_nil before).symm, hRest⟩
  · have hNone := hPlain.not_longer hSpells' hRest.symm
    subst hNone
    exact ⟨List.append_nil before', hRest.symm⟩

namespace Divides

variable {cs tail : List Char} {sections : List Section}

/- Nothing of the text is left out. -/
theorem text_eq
    (h : Divides cs sections tail) :
    cs = (sections.flatMap fun s => s.before ++ s.text) ++ tail := by
  induction h with
  | last hPlain => rfl
  | next hPlain hSpells hRest ih =>
      rw [List.flatMap_cons, List.append_assoc, ← ih,
        List.append_assoc]

/-
  A text is gone through in one way.  The induction is on one
  way through it; the other one meets the same placeholder at
  the same place.
-/
theorem unique
    (h : Divides cs sections tail)
    {sections' : List Section}
    {tail' : List Char}
    (h' : Divides cs sections' tail') :
    sections' = sections ∧ tail' = tail := by
  induction h generalizing sections' tail' with
  | last hPlain =>
      cases h' with
      | last hPlain' => exact ⟨rfl, rfl⟩
      | next hPlain' hSpells' hRest' =>
          exact (hPlain.not_within hSpells').elim
  | @next before text rest tail p sections hPlain hSpells
      hRest ih =>
      generalize hText : before ++ (text ++ rest) = cs at h'
      cases h' with
      | last hPlain' =>
          subst hText
          exact (hPlain'.not_within hSpells).elim
      | next hPlain' hSpells' hRest' =>
          rcases hPlain.same_length hPlain' hSpells hSpells' hText
            with ⟨hBefore, hSame⟩
          rcases spells_unique hSpells hSpells' hSame with
            ⟨rfl, rfl, rfl⟩
          rcases ih hRest' with ⟨rfl, rfl⟩
          rw [hBefore]
          exact ⟨rfl, rfl⟩

end Divides

------------------------------------------------------------
-- Splitting
------------------------------------------------------------

/- The pieces of a text that has been gone through. -/
def pieces
    (sections : List Section)
    (tail : List Char) : List Piece :=
  (sections.flatMap fun s =>
      s.before.map Piece.character ++ [.placeholder s.placeholder])
    ++ tail.map Piece.character

/- A character that comes before all sections. -/
def pushed
    (c : Char) :
    List Section → List Char → List Section × List Char
  | [], tail => ([], c :: tail)
  | s :: sections, tail =>
      ({ s with before := c :: s.before } :: sections, tail)

theorem Divides.pushed
    {c : Char}
    {cs tail : List Char}
    {sections : List Section}
    (hNone : ¬ Begins (c :: cs))
    (h : Divides cs sections tail) :
    Divides (c :: cs) (pushed c sections tail).1
        (pushed c sections tail).2 ∧
      pieces (pushed c sections tail).1
          (pushed c sections tail).2 =
        .character c :: pieces sections tail := by
  cases h with
  | last hPlain =>
      refine ⟨.last (hPlain.cons ?_), rfl⟩
      rw [List.append_nil]
      exact hNone
  | next hPlain hSpells hRest =>
      exact ⟨.next (hPlain.cons hNone) hSpells hRest, rfl⟩

theorem split_of_read
    {cs rest : List Char}
    {p : Placeholder}
    (hRead : read? cs = some (p, rest)) :
    split cs = .placeholder p :: split rest := by
  rw [split]
  split
  · rename_i hFound
    rw [hRead] at hFound
    rcases Prod.mk.inj (Option.some.inj hFound) with ⟨rfl, rfl⟩
    rfl
  · rename_i hFound
    rw [hRead] at hFound
    contradiction

theorem split_of_none
    {c : Char}
    {rest : List Char}
    (hNone : read? (c :: rest) = none) :
    split (c :: rest) = .character c :: split rest := by
  rw [split]
  split
  · rename_i hFound
    rw [hNone] at hFound
    contradiction
  · rfl

/- A text is split as it is gone through. -/
theorem split_divides
    (cs : List Char) :
    ∃ sections tail,
      Divides cs sections tail ∧ split cs = pieces sections tail := by
  induction cs using split.induct with
  | case1 cs p rest hRead ih =>
      rcases ih with ⟨sections, tail, hDivides, hPieces⟩
      rcases read?_eq_some_iff.mp hRead with
        ⟨text, hSpells, rfl⟩
      refine
        ⟨⟨[], p, text⟩ :: sections, tail,
          .next (plain_nil _) hSpells hDivides, ?_⟩
      rw [split_of_read hRead, hPieces]
      rfl
  | case2 c rest hRead ih =>
      rcases ih with ⟨sections, tail, hDivides, hPieces⟩
      have hNone : ¬ Begins (c :: rest) := by
        rw [begins_iff]
        rintro ⟨p, after, hFound⟩
        rw [hRead] at hFound
        contradiction
      rcases hDivides.pushed hNone with ⟨hPushed, hMore⟩
      refine ⟨_, _, hPushed, ?_⟩
      rw [split_of_none hRead, hPieces, hMore]
  | case3 hRead =>
      refine ⟨[], [], .last (plain_nil []), ?_⟩
      rw [split]
      rfl

------------------------------------------------------------
-- Values
------------------------------------------------------------

/- What a placeholder stands for. -/
inductive StandsFor
    (env : Environment)
    (p : Placeholder) : List Char → Prop where
  | set
      {v : String}
      (hSet : env (String.ofList p.name) = some v)
      (hSome : v ≠ "") :
      StandsFor env p v.toList
  /- The variable is not set, or to nothing. -/
  | unset
      (hNone :
        env (String.ofList p.name) = none ∨
          env (String.ofList p.name) = some "") :
      StandsFor env p p.default

theorem standsFor_value
    (env : Environment)
    (p : Placeholder) :
    p.StandsFor env (p.value env) := by
  unfold value
  cases hSet : env (String.ofList p.name) with
  | none => exact .unset (.inl hSet)
  | some v =>
      simp only
      cases hEmpty : v.isEmpty with
      | true =>
          have hNone : v = "" := String.isEmpty_iff.mp hEmpty
          rw [hNone] at hSet
          exact .unset (.inr hSet)
      | false =>
          refine .set hSet ?_
          rintro rfl
          contradiction

theorem StandsFor.unique
    {env : Environment}
    {p : Placeholder}
    {v w : List Char}
    (h : p.StandsFor env v)
    (h' : p.StandsFor env w) :
    v = w := by
  cases h with
  | set hSet hSome =>
      cases h' with
      | set hSet' hSome' =>
          rw [hSet] at hSet'
          rw [Option.some.inj hSet']
      | unset hNone => simp_all
  | unset hNone =>
      cases h' with
      | set hSet' hSome' => simp_all
      | unset hNone' => rfl

/- What comes out for a piece. -/
def Piece.text (env : Environment) : Piece → List Char
  | .character c => [c]
  | .placeholder p => p.value env

theorem interpolate_eq
    (env : Environment)
    (cs : List Char) :
    interpolate env cs = (split cs).flatMap (Piece.text env) := by
  unfold interpolate
  congr 1

theorem flatMap_characters
    (env : Environment)
    (front : List Char) :
    (front.map Piece.character).flatMap (Piece.text env) =
      front := by
  rw [List.flatMap_map]
  exact List.flatMap_singleton' front

/- What comes out for a text that has been gone through. -/
theorem flatMap_pieces
    (env : Environment)
    (sections : List Section)
    (tail : List Char) :
    (pieces sections tail).flatMap (Piece.text env) =
      (sections.flatMap fun s =>
        s.before ++ s.placeholder.value env) ++ tail := by
  unfold pieces
  rw [List.flatMap_append, flatMap_characters, List.flatMap_assoc]
  congr 2
  funext s
  rw [List.flatMap_append, flatMap_characters]
  exact congrArg _ (List.append_nil _)

/-
  A text with placeholders is gone through once.  There is one
  way to take it apart into plain stretches and placeholders,
  each of these at the first place where one begins after the
  one before it.  In the text that comes out, each of them is
  replaced by what it stands for, and everything else is as
  it was.
-/
theorem interpolate_in_one_pass
    (env : Environment)
    (cs : List Char) :
    ∃ sections tail,
      Divides cs sections tail ∧
      (∀ sections' tail',
        Divides cs sections' tail' →
          sections' = sections ∧ tail' = tail) ∧
      cs =
        (sections.flatMap fun s => s.before ++ s.text) ++ tail ∧
      (∀ s ∈ sections, ∀ v,
        s.placeholder.StandsFor env v ↔
          v = s.placeholder.value env) ∧
      interpolate env cs =
        (sections.flatMap fun s =>
          s.before ++ s.placeholder.value env) ++ tail := by
  rcases split_divides cs with
    ⟨sections, tail, hDivides, hPieces⟩
  refine
    ⟨sections, tail, hDivides, fun _ _ => hDivides.unique,
      hDivides.text_eq, ?_, ?_⟩
  · intro s _ v
    have hValue := s.placeholder.standsFor_value env
    constructor
    · intro hStands
      exact hStands.unique hValue
    · rintro rfl
      exact hValue
  · rw [interpolate_eq, hPieces, flatMap_pieces]

/-
  Malformed placeholders stay, a default ends with the first
  brace, and a value that looks like a placeholder is none.
-/
example :
    interpolate (fun _ => some "$\x7bA\x7d")
        "$\x7b1A\x7d $\x7bA $\x7bA:-$\x7bB\x7d\x7d $\x7bB:-b\n$".toList =
      "$\x7b1A\x7d $\x7bA $\x7bA\x7d\x7d $\x7bB:-b\n$".toList := by
  cbv

end Placeholder

end OrderWatch
