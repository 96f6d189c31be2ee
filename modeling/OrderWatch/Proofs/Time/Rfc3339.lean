import OrderWatch.Proofs.Text.Digits
import OrderWatch.Proofs.Time.Calendar
import OrderWatch.Time.Rfc3339

/-
  Reading a moment undoes writing it.

  Every number of the text has a width of its own, or is ended
  by a mark that is no digit: years outside 0 to 9999 have a
  sign, and are as long as they are.  The date is that of the
  day, so it leads back to the day, and the fraction of the
  second is written on as many digits as it takes.

  Main declarations:
    * `Moment.readNumber_padded`
    * `Moment.readYear_yearText`
    * `Moment.readFraction_fractionText`
    * `Moment.IsOrdinary`
    * `Moment.read?_text`
-/

namespace OrderWatch

namespace Time

namespace Moment

open Text

variable {c : Char} {n width : Nat}

------------------------------------------------------------
-- Numbers and marks
------------------------------------------------------------

theorem isBlank_of_isDigit
    (hDigit : isDigit c = true) :
    isBlank c = false := by
  rw [isDigit_eq, Char.isDigit] at hDigit
  simp only [Bool.and_eq_true, decide_eq_true_iff] at hDigit
  have hRange : 48 ≤ c.toNat ∧ c.toNat ≤ 57 := hDigit
  unfold isBlank
  simp
  omega

theorem trimStart_cons
    (hMark : isBlank c = false)
    (cs : List Char) :
    trimStart (c :: cs) = c :: cs := by
  unfold trimStart
  rw [List.dropWhile_cons_of_neg (by simp [hMark])]

theorem padded_cons
    (width n : Nat) :
    ∃ c ds, padded width n = c :: ds ∧ isDigit c = true := by
  cases hText : padded width n with
  | nil =>
      rw [padded_eq, List.append_eq_nil_iff] at hText
      exact absurd hText.2 (natText_ne_nil n)
  | cons c ds =>
      have hMem : c ∈ padded width n := by simp [hText]
      exact ⟨c, ds, rfl, isDigit_of_mem_padded hMem⟩

theorem trimStart_padded
    (width n : Nat)
    (cs : List Char) :
    trimStart (padded width n ++ cs) = padded width n ++ cs := by
  rcases padded_cons width n with ⟨c, ds, hText, hDigit⟩
  rw [hText, List.cons_append,
    trimStart_cons (isBlank_of_isDigit hDigit)]

/- A number that fits its width, whatever follows. -/
theorem readNumber_padded
    (hWidth : 0 < width)
    (hFits : n < 10 ^ width)
    (cs : List Char) :
    readNumber width (padded width n ++ cs) = some (n, cs) := by
  have hLength := length_padded hWidth hFits
  have hDigits :
      (spanDigits (padded width n ++ cs)).1.take width =
        padded width n := by
    unfold spanDigits
    rw [List.span_eq_takeWhile_dropWhile,
      List.takeWhile_append_of_pos
        fun _ => isDigit_of_mem_padded,
      List.take_append_of_le_length (by omega),
      List.take_of_length_le (by omega)]
  rcases padded_cons width n with ⟨c, ds, hText, _⟩
  unfold readNumber
  simp only
  rw [trimStart_padded, hDigits, List.drop_left,
    ofDigits_padded, hText]
  rfl

theorem readMark_cons
    (hMark : isBlank c = false)
    (cs : List Char) :
    readMark c (c :: cs) = some ((), cs) := by
  unfold readMark
  rw [trimStart_cons hMark]
  simp

------------------------------------------------------------
-- Years
------------------------------------------------------------

theorem spanDigits_padded
    (hMark : isDigit c = false)
    (width n : Nat)
    (cs : List Char) :
    spanDigits (padded width n ++ c :: cs) =
      (padded width n, c :: cs) := by
  apply spanDigits_append fun _ => isDigit_of_mem_padded
  simpa using hMark

/- A year that starts with a digit has four of them. -/
theorem readYear_digits
    (hDigit : isDigit c = true)
    (cs : List Char) :
    readYear (c :: cs) =
      (readNumber 4 (c :: cs)).map fun (n, rest) =>
        ((n : Int), rest) := by
  unfold readYear
  simp only
  rw [trimStart_cons (isBlank_of_isDigit hDigit)]
  split
  · rename_i hMinus
    cases hMinus
    contradiction
  · rename_i hPlus
    cases hPlus
    contradiction
  · rfl

/- A year with a sign is as long as its digits. -/
theorem readYear_signed
    (negative : Bool)
    (n : Nat)
    (cs : List Char) :
    readYear
        ((if negative then '-' else '+')
          :: (padded 4 n ++ '-' :: cs)) =
      some (if negative then -(n : Int) else n, '-' :: cs) := by
  have hSpan :=
    spanDigits_padded (show isDigit '-' = false by decide) 4 n cs
  have hNotEmpty : (padded 4 n).isEmpty = false := by
    rcases padded_cons 4 n with ⟨c, ds, hText, _⟩
    rw [hText]
    rfl
  unfold readYear
  cases negative with
  | true =>
      simp only [if_true]
      rw [trimStart_cons (by decide)]
      simp [hSpan, hNotEmpty, ofDigits_padded]
  | false =>
      simp only [Bool.false_eq_true, if_false]
      rw [trimStart_cons (by decide)]
      simp [hSpan, hNotEmpty, ofDigits_padded]

/- A year, up to the mark that follows. -/
theorem readYear_yearText
    (year : Int)
    (cs : List Char) :
    readYear (yearText year ++ '-' :: cs) =
      some (year, '-' :: cs) := by
  unfold yearText
  by_cases hPlain : 0 ≤ year ∧ year ≤ 9999
  · have hRead :
        readNumber 4 (padded 4 year.natAbs ++ '-' :: cs) =
          some (year.natAbs, '-' :: cs) :=
      readNumber_padded (by decide) (by omega) ('-' :: cs)
    rcases padded_cons 4 year.natAbs with
      ⟨c, ds, hText, hDigit⟩
    rw [if_pos hPlain]
    rw [hText, List.cons_append] at hRead ⊢
    rw [readYear_digits hDigit, hRead, Option.map_some]
    simp only [Int.natAbs_of_nonneg hPlain.1]
  · have hRead :=
      readYear_signed (decide (year < 0)) year.natAbs cs
    simp only [decide_eq_true_iff] at hRead
    have hValue :
        (if year < 0 then -(year.natAbs : Int)
          else year.natAbs) =
          year := by
      split_ifs <;> omega
    rw [if_neg hPlain, List.cons_append, hRead, hValue]

------------------------------------------------------------
-- Fractions
------------------------------------------------------------

theorem readFraction_padded
    {places n : Nat}
    (hPlaces : 0 < places ∧ places ≤ 9)
    (hFits : n < 10 ^ places)
    (hMark : isDigit c = false)
    (cs : List Char) :
    readFraction ('.' :: padded places n ++ c :: cs) =
      some (n * 10 ^ (9 - places), c :: cs) := by
  have hLength := length_padded hPlaces.1 hFits
  have hNotEmpty : (padded places n).isEmpty = false := by
    rcases padded_cons places n with ⟨c, ds, hText, _⟩
    rw [hText]
    rfl
  unfold readFraction
  simp only [List.cons_append]
  rw [spanDigits_padded hMark]
  simp only [hNotEmpty]
  rw [List.take_of_length_le (by omega), hLength,
    ofDigits_padded]
  rfl

/- A fraction of a second, up to the end of the time. -/
theorem readFraction_fractionText
    {nanos : Nat}
    (hNanos : nanos < 1000000000) :
    readFraction (fractionText nanos ++ ['Z']) =
      some (nanos, ['Z']) := by
  have hMark : isDigit 'Z' = false := by decide
  unfold fractionText
  split_ifs with hZero hMillis hMicros
  · subst hZero
    rfl
  · rw [readFraction_padded (by decide) (by omega) hMark]
    congr 2
    omega
  · rw [readFraction_padded (by decide) (by omega) hMark]
    congr 2
    omega
  · rw [readFraction_padded (by decide) (by omega) hMark]
    congr 2
    omega

------------------------------------------------------------
-- Moments
------------------------------------------------------------

/- A moment of the calendar that is no leap second. -/
structure IsOrdinary (m : Moment) : Prop where
  inCalendar : inCalendar m.seconds = true
  nanos_lt : m.nanos < 1000000000

/- A count of milliseconds stands for such a moment. -/
theorem isOrdinary_ofMillis
    (millis : Int) :
    (ofMillis millis).IsOrdinary := by
  unfold ofMillis
  by_cases hInside : Moment.inCalendar (millis / 1000) = true
  · simp only [hInside, if_true]
    exact ⟨hInside, by simp only; omega⟩
  · simp only [if_neg hInside]
    exact ⟨by decide, by decide⟩

/- The fields of a moment lead back to it. -/
theorem ofFields?_date
    {m : Moment}
    (h : m.IsOrdinary) :
    ofFields? m.date (m.secondOfDay / 3600)
        (m.secondOfDay / 60 % 60) (m.secondOfDay % 60) m.nanos
        0 =
      some m := by
  have hDay : m.secondOfDay < 86400 := by
    unfold secondOfDay
    omega
  have hCounted : ¬m.secondOfDay % 60 = 60 := by omega
  have hHere :
      m.date.days * 86400
          + ((((m.secondOfDay / 3600) * 60
            + m.secondOfDay / 60 % 60) * 60
            + m.secondOfDay % 60 : Nat) : Int) =
        m.seconds := by
    unfold date
    rw [Date.days_ofDays]
    unfold secondOfDay
    omega
  have hValid : m.date.isValid = true :=
    Date.isValid_ofDays (m.seconds / 86400)
  unfold ofFields?
  simp only [hCounted, if_false]
  rw [hHere, Int.sub_zero, if_pos]
  have hInside := h.inCalendar
  refine ⟨hValid, ?_, ?_, ?_, ?_, hInside, hInside⟩
  · omega
  · omega
  · omega
  · decide

/- A number of two digits, up to the mark that follows. -/
theorem readNumber_two
    (hFits : n < 100)
    (cs : List Char) :
    readNumber 2 (padded 2 n ++ cs) = some (n, cs) :=
  readNumber_padded (by decide) hFits cs

/-
  A text of a moment, part after part: its date, its time of
  day and its fraction, each ended by a mark.
-/
theorem read?_of_parts
    {year : Int}
    {month day hour minute second nanos : Nat}
    {cs monthOn dayOn hourOn minuteOn secondOn : List Char}
    {fractionOn : List Char}
    (hYear : readYear cs = some (year, '-' :: monthOn))
    (hMonth : readNumber 2 monthOn = some (month, '-' :: dayOn))
    (hDay : readNumber 2 dayOn = some (day, 'T' :: hourOn))
    (hHour : readNumber 2 hourOn = some (hour, ':' :: minuteOn))
    (hMinute :
      readNumber 2 minuteOn = some (minute, ':' :: secondOn))
    (hSecond : readNumber 2 secondOn = some (second, fractionOn))
    (hFraction : readFraction fractionOn = some (nanos, ['Z'])) :
    read? cs =
      ofFields? ⟨year, month, day⟩ hour minute second nanos 0 := by
  have hDash : ∀ cs, readMark '-' ('-' :: cs) = some ((), cs) :=
    readMark_cons (by decide)
  have hColon : ∀ cs, readMark ':' (':' :: cs) = some ((), cs) :=
    readMark_cons (by decide)
  have hSeparator :
      ∀ cs, readSeparator ('T' :: cs) = some ((), cs) :=
    fun _ => rfl
  have hOffset : readOffset ['Z'] = some (0, []) := by decide
  unfold read?
  refine bind_of_eq hYear ?_
  refine bind_of_eq (hDash monthOn) ?_
  refine bind_of_eq hMonth ?_
  refine bind_of_eq (hDash dayOn) ?_
  refine bind_of_eq hDay ?_
  refine bind_of_eq (hSeparator hourOn) ?_
  refine bind_of_eq hHour ?_
  refine bind_of_eq (hColon minuteOn) ?_
  refine bind_of_eq hMinute ?_
  refine bind_of_eq (hColon secondOn) ?_
  refine bind_of_eq hSecond ?_
  refine bind_of_eq hFraction ?_
  exact bind_of_eq hOffset rfl

/- A moment is read from its text as it was. -/
theorem read?_text
    {m : Moment}
    (h : m.IsOrdinary) :
    read? m.text.toList = some m := by
  have hNanos := h.nanos_lt
  have hWhole : m.nanos / 1000000000 = 0 := by omega
  have hPart : m.nanos % 1000000000 = m.nanos := by omega
  have hDay : m.secondOfDay < 86400 := by
    unfold secondOfDay
    omega
  rcases Date.bounds_of_isValid
      (Date.isValid_ofDays (m.seconds / 86400)) with
    ⟨hMonth, hDayOfMonth⟩
  have hMonth : m.date.month < 100 := by
    unfold date
    omega
  have hDayOfMonth : m.date.day < 100 := by
    unfold date
    omega
  have hHour : m.secondOfDay / 3600 < 100 := by omega
  have hMinute : m.secondOfDay / 60 % 60 < 100 := by omega
  have hSecond : m.secondOfDay % 60 < 100 := by omega
  unfold text
  rw [String.toList_ofList]
  unfold plainText
  simp only [hWhole, hPart, Nat.add_zero, List.append_assoc,
    List.cons_append]
  rw [read?_of_parts (readYear_yearText m.date.year _)
    (readNumber_two hMonth _) (readNumber_two hDayOfMonth _)
    (readNumber_two hHour _) (readNumber_two hMinute _)
    (readNumber_two hSecond _)
    (readFraction_fractionText hNanos)]
  exact ofFields?_date h

/- The first moment of the calendar, whose year is negative. -/
example :
    (ofMillis (-8334601228800000)).text =
      "-262143-01-01T00:00:00Z" := by
  decide

end Moment

end Time

end OrderWatch
