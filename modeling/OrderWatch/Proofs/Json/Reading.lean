import OrderWatch.Json.Reader
import OrderWatch.Json.Writer
import OrderWatch.Proofs.Text.Digits

/-
  Reading JSON undoes writing it.

  A value is exact if its numbers are whole ones of 64 bits
  and its strings are whole characters.  What is written of
  an exact value is read as the same value, whatever follows,
  as long as that cannot go on a number.  The rounds that
  reading takes are at most the characters that are read.

  Main declarations:
    * `Json.isExact`
    * `Json.readString_quoted`
    * `Json.readNumber_text`
    * `Json.Reads`, `Json.reads`
    * `Json.parse?_chars`
-/

namespace OrderWatch

namespace Json

open Text

------------------------------------------------------------
-- Exact values
------------------------------------------------------------

/- A whole number of 64 bits, with or without a sign. -/
def Number.isExact : Number → Bool
  | .natural n => n < 2 ^ 64
  | .negative n => 0 < n && n ≤ 2 ^ 63
  | .floating _ | .beyond => false

mutual

/- Whether every number and every string of a value is exact. -/
def isExact : Json → Bool
  | .null | .bool _ => true
  | .number n => n.isExact
  | .string s => s.isSome
  | .array items => areExact items
  | .object fields => haveExact fields

/- Whether all items of an array are exact. -/
def areExact : List Json → Bool
  | [] => true
  | j :: rest => isExact j && areExact rest

/- Whether all fields of an object are exact. -/
def haveExact : List (Option String × Json) → Bool
  | [] => true
  | (name, j) :: rest =>
      name.isSome && isExact j && haveExact rest

end

mutual

/- An exact value is read whole. -/
theorem isReadable_of_isExact :
    ∀ {j : Json}, isExact j = true → isReadable j = true
  | .null, _ => rfl
  | .bool _, _ => rfl
  | .number (.natural _), _ => rfl
  | .number (.negative _), _ => rfl
  | .string (some _), _ => rfl
  | .array _, hExact => areReadable_of_areExact hExact
  | .object _, hExact => haveReadable_of_haveExact hExact

theorem areReadable_of_areExact :
    ∀ {items : List Json},
      areExact items = true → areReadable items = true
  | [], _ => rfl
  | _ :: _, hExact =>
      have hParts := Bool.and_eq_true_iff.mp hExact
      Bool.and_eq_true_iff.mpr
        ⟨isReadable_of_isExact hParts.1,
          areReadable_of_areExact hParts.2⟩

theorem haveReadable_of_haveExact :
    ∀ {fields : List (Option String × Json)},
      haveExact fields = true → haveReadable fields = true
  | [], _ => rfl
  | (_, _) :: _, hExact =>
      have hParts := Bool.and_eq_true_iff.mp hExact
      have hFirst := Bool.and_eq_true_iff.mp hParts.1
      Bool.and_eq_true_iff.mpr
        ⟨Bool.and_eq_true_iff.mpr
            ⟨hFirst.1, isReadable_of_isExact hFirst.2⟩,
          haveReadable_of_haveExact hParts.2⟩

end

------------------------------------------------------------
-- Strings
------------------------------------------------------------

/- The four hexadecimal digits of a control character. -/
theorem hexPadded_control :
    ∀ n < 0x20,
      hexPadded 4 n =
        ['0', '0', Nat.digitChar (n / 16),
          Nat.digitChar (n % 16)] := by
  decide

theorem hexDigit?_digitChar :
    ∀ n < 16, hexDigit? (Nat.digitChar n) = some n := by
  decide

theorem ofCode_toNat
    {c : Char}
    (hControl : c.toNat < 0x20) :
    Piece.ofCode c.toNat = .whole c := by
  unfold Piece.ofCode
  rw [if_neg (by omega), Char.ofNat_toNat]

/- A control character is read from its code. -/
theorem readPieces_control
    {c : Char}
    (hControl : c.toNat < 0x20)
    (cs : List Char) :
    readPieces ('\\' :: 'u' :: (hexPadded 4 c.toNat ++ cs)) =
      (readPieces cs).map fun (pieces, rest) =>
        (.whole c :: pieces, rest) := by
  have hHigh := hexDigit?_digitChar (c.toNat / 16) (by omega)
  have hLow := hexDigit?_digitChar (c.toNat % 16) (by omega)
  have hZero : hexDigit? '0' = some 0 := rfl
  have hCode :
      ((0 * 16 + 0) * 16 + c.toNat / 16) * 16 + c.toNat % 16 =
        c.toNat := by
    omega
  rw [hexPadded_control c.toNat hControl]
  simp only [List.cons_append, List.nil_append]
  rw [readPieces]
  simp only [hZero, hHigh, hLow, hCode, ofCode_toNat hControl]

/- A written character is read as one piece. -/
theorem readPieces_charText
    (c : Char)
    (cs : List Char) :
    readPieces (charText c ++ cs) =
      (readPieces cs).map fun (pieces, rest) =>
        (.whole c :: pieces, rest) := by
  unfold charText
  split
  case h_8 hQuote hBackslash _ _ _ _ _ =>
    split
    · rename_i hControl
      exact readPieces_control hControl cs
    · rename_i hPlain
      rw [List.singleton_append, readPieces, if_neg]
      · rintro (hControl | hEscape)
        · exact hPlain hControl
        · exact hBackslash hEscape
      · exact hQuote
      · intro _ _ _ _ _ hEscape _
        exact hBackslash hEscape
      · intro _ _ hEscape _
        exact hBackslash hEscape
  all_goals rfl

theorem readPieces_quoted
    (s cs : List Char) :
    readPieces (s.flatMap charText ++ '"' :: cs) =
      some (s.map .whole, cs) := by
  induction s with
  | nil => rfl
  | cons c s ih =>
      rw [List.flatMap_cons, List.append_assoc,
        readPieces_charText, ih]
      rfl

theorem joinPieces_whole
    (s : List Char) :
    joinPieces (s.map .whole) = some s := by
  induction s with
  | nil => rfl
  | cons c s ih =>
      rw [List.map_cons, joinPieces, ih]
      rfl

/- A written string, its opening quote already taken. -/
theorem readString_quoted
    (s : String)
    (cs : List Char) :
    readString (s.toList.flatMap charText ++ '"' :: cs) =
      some (some s, cs) := by
  unfold readString
  rw [readPieces_quoted]
  simp [joinPieces_whole]

------------------------------------------------------------
-- Numbers
------------------------------------------------------------

/- What may follow a value: nothing, or one of three marks. -/
def Ends (cs : List Char) : Prop :=
  ∀ c ∈ cs.head?, c = ',' ∨ c = ']' ∨ c = '\x7d'

section Numbers

variable {n : Nat} {cs : List Char}

/- A mark does not go on a number. -/
theorem Ends.isDigit_eq
    (hEnds : Ends cs) :
    ∀ c ∈ cs.head?, isDigit c = false := by
  intro c hFirst
  rcases hEnds c hFirst with rfl | rfl | rfl <;> decide

theorem Ends.readFraction_eq
    (hEnds : Ends cs) :
    readFraction cs = some (none, cs) := by
  cases cs with
  | nil => rfl
  | cons c cs =>
      rcases hEnds c rfl with rfl | rfl | rfl <;> rfl

theorem Ends.readExponent_eq
    (hEnds : Ends cs) :
    readExponent cs = some (none, cs) := by
  cases cs with
  | nil => rfl
  | cons c cs =>
      rcases hEnds c rfl with rfl | rfl | rfl <;> rfl

/- Digits that fit are all gathered. -/
theorem Number.gather_eq
    {n : Nat}
    (hFits : extended n cs < 2 ^ 64) :
    gather n cs = (extended n cs, cs.length) := by
  induction cs generalizing n with
  | nil => rfl
  | cons c cs ih =>
      have hStep : extended n (c :: cs) =
          extended (n * 10 + (digit? c).getD 0) cs := rfl
      have hWider := le_extended (n * 10 + (digit? c).getD 0) cs
      rw [hStep] at hFits
      unfold gather
      simp only
      rw [if_pos (by omega), ih hFits, hStep]
      rfl

/- A number without a point and an exponent is whole. -/
theorem Number.ofDigits_natText
    (negative : Bool)
    (hFits : n < 2 ^ 64) :
    ofDigits negative (natText n) none none =
      wholeOf negative n := by
  have hValue : extended 0 (natText n) = n :=
    Text.ofDigits_natText n
  have hGather : gather 0 (natText n) =
      (n, (natText n).length) := by
    rw [gather_eq (by rwa [hValue]), hValue]
  unfold ofDigits
  simp [hGather]

/- The digits of a number, its sign already taken. -/
theorem leading_natText
    (n : Nat) :
    ¬((natText n).isEmpty = true ∨
      ((natText n).head? = some '0' ∧
        1 < (natText n).length)) := by
  rintro (hEmpty | ⟨hZero, hLong⟩)
  · exact natText_ne_nil n (List.isEmpty_iff.mp hEmpty)
  · rcases Nat.eq_zero_or_pos n with rfl | hPositive
    · contradiction
    · exact head?_natText hPositive hZero

/- A number whose sign has been taken. -/
def readUnsigned (negative : Bool) : Reader Number :=
  fun cs =>
    let (whole, cs) := spanDigits cs
    if whole.isEmpty ∨ (whole.head? = some '0' ∧ 1 < whole.length)
    then
      none
    else
      match readFraction cs with
      | none => none
      | some (fraction, cs) =>
          (readExponent cs).map fun (exponent, rest) =>
            (Number.ofDigits negative whole fraction exponent,
              rest)

theorem readNumber_signed
    (cs : List Char) :
    readNumber ('-' :: cs) = readUnsigned true cs :=
  rfl

theorem readNumber_unsigned
    (hUnsigned : ∀ rest, cs ≠ '-' :: rest) :
    readNumber cs = readUnsigned false cs := by
  cases cs with
  | nil => rfl
  | cons c cs =>
      unfold readNumber
      split
      rename_i hSign
      split at hSign
      · rename_i hMinus
        exact absurd hMinus (hUnsigned _)
      · cases hSign
        rfl

theorem readUnsigned_natText
    (negative : Bool)
    (hFits : n < 2 ^ 64)
    (hEnds : Ends cs) :
    readUnsigned negative (natText n ++ cs) =
      some (Number.wholeOf negative n, cs) := by
  unfold readUnsigned
  rw [spanDigits_append (fun _ => isDigit_of_mem_natText)
    hEnds.isDigit_eq]
  simp only
  rw [if_neg (leading_natText n), hEnds.readFraction_eq]
  simp only
  rw [hEnds.readExponent_eq, Option.map_some,
    Number.ofDigits_natText negative hFits]

/- Digits are no sign. -/
theorem natText_append_ne
    (n : Nat)
    (cs rest : List Char) :
    natText n ++ cs ≠ '-' :: rest := by
  intro hMinus
  have hFirst : '-' ∈ natText n := by
    cases hText : natText n with
    | nil => exact absurd hText (natText_ne_nil n)
    | cons c ds =>
        rw [hText] at hMinus
        cases hMinus
        exact List.mem_cons_self
  have hDigit := isDigit_of_mem_natText hFirst
  contradiction

/- A written number is read as the same number. -/
theorem readNumber_text
    {n : Number}
    (hExact : n.isExact = true)
    (hEnds : Ends cs) :
    readNumber (n.text ++ cs) = some (n, cs) := by
  cases n with
  | natural n =>
      have hFits : n < 2 ^ 64 := of_decide_eq_true hExact
      unfold Number.text
      rw [readNumber_unsigned (natText_append_ne n cs),
        readUnsigned_natText false hFits hEnds]
      rfl
  | negative n =>
      have hRange : 0 < n ∧ n ≤ 2 ^ 63 := by
        simpa [Number.isExact] using hExact
      have hWhole : Number.wholeOf true n = .negative n := by
        unfold Number.wholeOf
        rw [if_neg (by decide), if_neg (by omega)]
      unfold Number.text
      rw [List.cons_append, readNumber_signed,
        readUnsigned_natText true (by omega) hEnds, hWhole]
  | floating x => contradiction
  | beyond => contradiction

end Numbers

------------------------------------------------------------
-- Values
------------------------------------------------------------

section Values

variable {fuel : Nat} {j : Json} {cs : List Char}

theorem skipSpace_cons
    {c : Char}
    (hMark : isSpace c = false)
    (cs : List Char) :
    skipSpace (c :: cs) = c :: cs := by
  unfold skipSpace
  rw [List.dropWhile_cons_of_neg (by simp [hMark])]

/- The first character of a number. -/
theorem Number.text_cons
    {n : Number}
    (hExact : n.isExact = true) :
    ∃ c ds, n.text = c :: ds ∧ (isDigit c = true ∨ c = '-') := by
  cases n with
  | natural n =>
      cases hText : natText n with
      | nil => exact absurd hText (natText_ne_nil n)
      | cons c ds =>
          have hMem : c ∈ natText n := by simp [hText]
          exact ⟨c, ds, hText, .inl (isDigit_of_mem_natText hMem)⟩
  | negative n => exact ⟨'-', natText n, rfl, .inr rfl⟩
  | floating x => contradiction
  | beyond => contradiction

theorem isSpace_of_starts
    {c : Char}
    (hFirst : isDigit c = true ∨ c = '-') :
    isSpace c = false := by
  by_contra hSpace
  unfold isSpace at hSpace
  simp only [Bool.not_eq_false, Bool.or_eq_true, beq_iff_eq]
    at hSpace
  rcases hSpace with ((rfl | rfl) | rfl) | rfl <;>
    rcases hFirst with hDigit | hMinus <;> contradiction

/- What starts like a number is read as one. -/
theorem readValue_number
    {c : Char}
    (hFirst : isDigit c = true ∨ c = '-')
    (fuel : Nat)
    (cs : List Char) :
    readValue (fuel + 1) (c :: cs) =
      (readNumber (c :: cs)).map fun (n, rest) =>
        (.number n, rest) := by
  unfold readValue
  rw [skipSpace_cons (isSpace_of_starts hFirst)]
  split <;> first
    | rfl
    | (rename_i hText
       cases hText
       rcases hFirst with hDigit | hMinus <;> contradiction)

/- An array with something in it. -/
theorem readValue_items
    {c : Char}
    (hMark : isSpace c = false)
    (hOpen : c ≠ ']')
    (fuel : Nat)
    (cs : List Char) :
    readValue (fuel + 1) ('[' :: c :: cs) =
      (readItems fuel (c :: cs)).map fun (items, rest) =>
        (.array items, rest) := by
  unfold readValue
  rw [skipSpace_cons (by decide)]
  simp only
  rw [skipSpace_cons hMark]
  split
  · rename_i hClosed
    cases hClosed
    contradiction
  · rfl

/- An object with something in it. -/
theorem readValue_fields
    (fuel : Nat)
    (cs : List Char) :
    readValue (fuel + 1) ('\x7b' :: '"' :: cs) =
      (readFields fuel ('"' :: cs)).map fun (fields, rest) =>
        (.object fields, rest) := by
  unfold readValue
  rw [skipSpace_cons (by decide)]
  simp only
  rw [skipSpace_cons (by decide)]
  rfl

/- A value starts with neither a blank nor a bracket's end. -/
theorem chars_cons
    (hExact : j.isExact = true) :
    ∃ c ds,
      chars j = c :: ds ∧ isSpace c = false ∧ c ≠ ']' := by
  unfold chars
  split
  case h_4 n =>
    rcases Number.text_cons hExact with ⟨c, ds, hText, hFirst⟩
    refine ⟨c, ds, hText, isSpace_of_starts hFirst, ?_⟩
    rintro rfl
    rcases hFirst with hDigit | hMinus <;> contradiction
  all_goals exact ⟨_, _, rfl, by decide, by decide⟩

/- The first character after an item ends the item. -/
theorem ends_itemChars
    (items : List Json)
    (cs : List Char) :
    Ends (itemChars items ++ cs) := by
  cases items with
  | nil =>
      intro c hFirst
      cases hFirst
      exact .inr (.inl rfl)
  | cons item items =>
      intro c hFirst
      unfold itemChars at hFirst
      cases hFirst
      exact .inl rfl

theorem ends_fieldChars
    (fields : List (Option String × Json))
    (cs : List Char) :
    Ends (fieldChars fields ++ cs) := by
  cases fields with
  | nil =>
      intro c hFirst
      cases hFirst
      exact .inr (.inr rfl)
  | cons field fields =>
      intro c hFirst
      unfold fieldChars at hFirst
      cases hFirst
      exact .inl rfl

/-
  So many rounds are enough to read what is written on as
  many characters.
-/
structure Reads (fuel : Nat) : Prop where
  value :
    ∀ {j} (cs : List Char),
      isExact j = true → Ends cs → (chars j).length ≤ fuel →
        readValue fuel (chars j ++ cs) = some (j, cs)
  items :
    ∀ {j items} (cs : List Char),
      isExact j = true → areExact items = true →
        (chars j ++ itemChars items).length ≤ fuel →
          readItems fuel (chars j ++ (itemChars items ++ cs)) =
            some (j :: items, cs)
  fields :
    ∀ {j fields} (name : String) (cs : List Char),
      isExact j = true → haveExact fields = true →
        (quoted name ++ ':' :: chars j
          ++ fieldChars fields).length ≤ fuel →
          readFields fuel
              (quoted name ++
                (':' :: (chars j ++ (fieldChars fields ++ cs)))) =
            some ((some name, j) :: fields, cs)

theorem quoted_append
    (s : String)
    (cs : List Char) :
    quoted s ++ cs =
      '"' :: (s.toList.flatMap charText ++ '"' :: cs) := by
  unfold quoted
  simp

namespace Reads

/- Nothing is written on no characters. -/
theorem zero : Reads 0 where
  value := by
    intro j _ hExact _ hLength
    rcases chars_cons hExact with ⟨c, ds, hChars, _⟩
    simp [hChars] at hLength
  items := by
    intro j items _ hExact _ hLength
    rcases chars_cons hExact with ⟨c, ds, hChars, _⟩
    simp [hChars] at hLength
  fields := by
    intro j fields name _ _ _ hLength
    simp [quoted] at hLength

theorem array_succ
    {items : List Json}
    (h : Reads fuel)
    (hItem : isExact j = true)
    (hItems : areExact items = true)
    (hLength : (chars (.array (j :: items))).length ≤ fuel + 1) :
    readValue (fuel + 1) (chars (.array (j :: items)) ++ cs) =
      some (.array (j :: items), cs) := by
  rcases chars_cons hItem with ⟨c, ds, hChars, hMark, hOpen⟩
  unfold chars at hLength ⊢
  have hRead :=
    h.items cs hItem hItems (by
      simp only [List.length_append, List.length_cons]
        at hLength ⊢
      omega)
  rw [hChars, List.cons_append] at hRead
  rw [hChars]
  simp only [List.cons_append, List.append_assoc]
  rw [readValue_items hMark hOpen, hRead]
  rfl

theorem object_succ
    {name : String}
    {fields : List (Option String × Json)}
    (h : Reads fuel)
    (hValue : isExact j = true)
    (hFields : haveExact fields = true)
    (hLength :
      (chars (.object ((some name, j) :: fields))).length ≤
        fuel + 1) :
    readValue (fuel + 1)
        (chars (.object ((some name, j) :: fields)) ++ cs) =
      some (.object ((some name, j) :: fields), cs) := by
  unfold chars at hLength ⊢
  have hRead :=
    h.fields name cs hValue hFields (by
      simp only [List.length_append, List.length_cons,
        Option.getD_some] at hLength ⊢
      omega)
  rw [quoted_append] at hRead
  simp only [Option.getD_some, List.cons_append,
    List.append_assoc]
  rw [quoted_append, readValue_fields, hRead]
  rfl

theorem value_succ
    (h : Reads fuel)
    (hExact : isExact j = true)
    (hEnds : Ends cs)
    (hLength : (chars j).length ≤ fuel + 1) :
    readValue (fuel + 1) (chars j ++ cs) = some (j, cs) := by
  cases j with
  | null => rfl
  | bool b => cases b <;> rfl
  | number n =>
      rcases Number.text_cons hExact with ⟨c, ds, hText, hFirst⟩
      have hRead := readNumber_text hExact hEnds
      unfold chars
      rw [hText, List.cons_append] at hRead ⊢
      rw [readValue_number hFirst, hRead]
      rfl
  | string s =>
      rcases Option.isSome_iff_exists.mp hExact with ⟨s, rfl⟩
      have hRead := readString_quoted s cs
      unfold chars
      rw [Option.getD_some, quoted_append]
      unfold readValue
      rw [skipSpace_cons (by decide)]
      simp only
      rw [hRead]
      rfl
  | array items =>
      cases items with
      | nil => rfl
      | cons item items =>
          rcases Bool.and_eq_true_iff.mp hExact with
            ⟨hItem, hItems⟩
          exact h.array_succ hItem hItems hLength
  | object fields =>
      cases fields with
      | nil => rfl
      | cons field fields =>
          rcases field with ⟨name, j⟩
          simp only [isExact, haveExact, Bool.and_eq_true]
            at hExact
          rcases hExact with ⟨⟨hName, hValue⟩, hFields⟩
          rcases Option.isSome_iff_exists.mp hName with
            ⟨name, rfl⟩
          exact h.object_succ hValue hFields hLength

theorem items_succ
    {items : List Json}
    (h : Reads fuel)
    (hItem : isExact j = true)
    (hItems : areExact items = true)
    (hLength :
      (chars j ++ itemChars items).length ≤ fuel + 1) :
    readItems (fuel + 1) (chars j ++ (itemChars items ++ cs)) =
      some (j :: items, cs) := by
  have hClosed : 0 < (itemChars items).length := by
    cases items <;> simp [itemChars]
  rw [List.length_append] at hLength
  have hFirst :=
    h.value _ hItem (ends_itemChars items cs) (by omega)
  unfold readItems
  rw [hFirst]
  cases items with
  | nil => rfl
  | cons item items =>
      rcases Bool.and_eq_true_iff.mp hItems with
        ⟨hNext, hRest⟩
      have hRead :=
        h.items cs hNext hRest (by
          simp only [itemChars, List.length_append,
            List.length_cons] at hLength ⊢
          omega)
      unfold itemChars
      simp only [List.cons_append, List.append_assoc]
      rw [skipSpace_cons (by decide)]
      simp only
      rw [hRead]
      rfl

theorem fields_succ
    {name : String}
    {fields : List (Option String × Json)}
    (h : Reads fuel)
    (hValue : isExact j = true)
    (hFields : haveExact fields = true)
    (hLength :
      (quoted name ++ ':' :: chars j
        ++ fieldChars fields).length ≤ fuel + 1) :
    readFields (fuel + 1)
        (quoted name ++
          (':' :: (chars j ++ (fieldChars fields ++ cs)))) =
      some ((some name, j) :: fields, cs) := by
  simp only [List.length_append, List.length_cons] at hLength
  have hFirst :=
    h.value _ hValue (ends_fieldChars fields cs) (by omega)
  unfold readFields
  rw [quoted_append, skipSpace_cons (by decide)]
  simp only
  rw [readString_quoted]
  simp only
  rw [skipSpace_cons (by decide)]
  simp only
  rw [hFirst]
  cases fields with
  | nil => rfl
  | cons field fields =>
      rcases field with ⟨next, k⟩
      have hParts := hFields
      simp only [haveExact, Bool.and_eq_true] at hParts
      rcases hParts with ⟨⟨hName, hNext⟩, hRest⟩
      rcases Option.isSome_iff_exists.mp hName with
        ⟨next, rfl⟩
      have hRead :=
        h.fields next cs hNext hRest (by
          simp only [fieldChars, List.length_append,
            List.length_cons, Option.getD_some] at hLength ⊢
          omega)
      unfold fieldChars
      simp only [Option.getD_some, List.cons_append,
        List.append_assoc]
      rw [skipSpace_cons (by decide)]
      simp only
      rw [hRead]
      rfl

end Reads

/- The induction is on the rounds, as reading goes by them. -/
theorem reads
    (fuel : Nat) :
    Reads fuel := by
  induction fuel with
  | zero => exact Reads.zero
  | succ fuel ih =>
      exact
        { value := fun _ => ih.value_succ
          items := fun _ => ih.items_succ
          fields := fun _ _ => ih.fields_succ }

/- What is written of an exact value is read as the value. -/
theorem parse?_chars
    (hExact : isExact j = true) :
    parse? (chars j) = some j := by
  have hRead :=
    (reads (2 * (chars j).length + 1)).value [] hExact
      (by simp [Ends]) (by omega)
  rw [List.append_nil] at hRead
  unfold parse?
  rw [hRead]
  rfl

end Values

end Json

end OrderWatch
