import Mathlib.Tactic.IntervalCases
import OrderWatch.Time.Calendar

/-
  Days and dates of the calendar.

  A group of 400 years is four centuries, a century is 25
  times four years, and only the last year of four has a leap
  day, save at the end of the first three centuries.  So a
  day of a group has a century, four years of it, and a day
  of these; its year and its day of the year can be told from
  them.  Every day has a date of the calendar, which leads
  back to the day.

  Main declarations:
    * `Date.GroupDay`
    * `Date.days_ofDays`
    * `Date.isValid_ofDays`
-/

namespace OrderWatch

namespace Time

namespace Date

------------------------------------------------------------
-- Years of a group
------------------------------------------------------------

/- The year of a group on whose March a day follows. -/
def yearOfGroup (day : Int) : Int :=
  (day - day / 1460 + day / 36524 - day / 146096) / 365

/- The first day of a year of a group. -/
def startOfYear (year : Int) : Int :=
  365 * year + year / 4 - year / 100

/-
  A day of a group, by its century, by the four years and the
  year that it lies in, and by its place in the year.
-/
structure GroupDay
    (day century four year rest : Int) : Prop where
  day_eq :
    day = 36524 * century + 1461 * four + 365 * year + rest
  century_bounds : 0 ≤ century ∧ century ≤ 3
  four_bounds : 0 ≤ four ∧ four ≤ 24
  year_bounds : 0 ≤ year ∧ year ≤ 3
  rest_bounds : 0 ≤ rest ∧ rest ≤ 365
  /- A leap day ends four years, but not every century. -/
  leap : rest = 365 → year = 3 ∧ (four = 24 → century = 3)

theorem exists_groupDay
    {day : Int}
    (hFirst : 0 ≤ day)
    (hLast : day < 146097) :
    ∃ century four year rest,
      GroupDay day century four year rest := by
  let century := day / 36524 - day / 146096
  let four := (day - 36524 * century) / 1461
  let rest := day - 36524 * century - 1461 * four
  let year := rest / 365 - rest / 1460
  refine
    ⟨century, four, year, rest - 365 * year,
      ⟨by omega, by omega, by omega, by omega, by omega,
        by omega⟩⟩

namespace GroupDay

variable {day century four year rest : Int}

/- The last day of a group counts with its last century. -/
theorem century_eq
    (h : GroupDay day century four year rest) :
    day / 36524 - day / 146096 = century := by
  rcases h with ⟨rfl, hCentury, hFour, hYear, hRest, hLeap⟩
  by_cases hLast : rest = 365 ∧ four = 24
  · omega
  · have hInside : 1461 * four + 365 * year + rest < 36524 := by
      omega
    have hNoLast :
        (36524 * century + 1461 * four + 365 * year + rest)
            / 146096 =
          0 := by
      omega
    omega

/- Days of four years are counted once too often at most. -/
theorem four_eq
    (h : GroupDay day century four year rest) :
    day / 1460 =
      25 * century + four
        + (24 * century + four + 365 * year + rest) / 1460 := by
  rw [h.day_eq]
  omega

theorem yearOfGroup_eq
    (h : GroupDay day century four year rest) :
    yearOfGroup day = 100 * century + 4 * four + year := by
  have hCenturies := h.century_eq
  have hFours := h.four_eq
  have hDays :
      day - day / 1460 + day / 36524 - day / 146096 =
        365 * (100 * century + 4 * four + year) + rest
          - (24 * century + four + 365 * year + rest)
            / 1460 := by
    have hDay := h.day_eq
    omega
  unfold yearOfGroup
  rw [hDays]
  clear hDays hFours hCenturies
  rcases h with ⟨rfl, hCentury, hFour, hYear, hRest, hLeap⟩
  omega

theorem startOfYear_eq
    (h : GroupDay day century four year rest) :
    startOfYear (100 * century + 4 * four + year) =
      36524 * century + 1461 * four + 365 * year := by
  have hFours :
      (100 * century + 4 * four + year) / 4 =
        25 * century + four := by
    have hYear := h.year_bounds
    omega
  have hCenturies :
      (100 * century + 4 * four + year) / 100 = century := by
    have hFour := h.four_bounds
    have hYear := h.year_bounds
    omega
  unfold startOfYear
  omega

end GroupDay

/-
  A day of a group, by the year and by its place in the year.
  The 366th day is the leap day of the year that comes next.
-/
structure YearDay (day year rest : Int) : Prop where
  day_eq : day = startOfYear year + rest
  year_bounds : 0 ≤ year ∧ year ≤ 399
  rest_bounds : 0 ≤ rest ∧ rest ≤ 365
  leap : rest = 365 → isLeap (year + 1) = true

theorem isLeap_iff
    (year : Int) :
    isLeap year = true ↔
      year % 4 = 0 ∧ (year % 100 ≠ 0 ∨ year % 400 = 0) := by
  simp [isLeap]

theorem yearDay
    (day : Int)
    (hFirst : 0 ≤ day)
    (hLast : day < 146097) :
    YearDay day (yearOfGroup day)
      (day - startOfYear (yearOfGroup day)) := by
  rcases exists_groupDay hFirst hLast with
    ⟨century, four, year, rest, h⟩
  have hStart := h.startOfYear_eq
  rw [h.yearOfGroup_eq, hStart]
  rcases h with ⟨rfl, hCentury, hFour, hYear, hRest, hLeap⟩
  refine ⟨by omega, by omega, by omega, ?_⟩
  intro hLast
  rw [isLeap_iff]
  omega

------------------------------------------------------------
-- Dates of a year
------------------------------------------------------------

/- The month of a day of a year, March being the first. -/
def marchMonth (rest : Int) : Int :=
  (5 * rest + 2) / 153

/- The date of a day of a year that begins in March. -/
def ofYearDay (year rest : Int) : Date :=
  let month := (marchMonth rest + 2) % 12 + 1
  let day := rest - (153 * marchMonth rest + 2) / 5 + 1
  { year := if month ≤ 2 then year + 1 else year
    month := month.toNat
    day := day.toNat }

theorem ofDays_eq
    (days : Int) :
    ofDays days =
      let day := (days + epoch) % 146097
      let year := yearOfGroup day
      ofYearDay (year + (days + epoch) / 146097 * 400)
        (day - startOfYear year) :=
  rfl

section YearDays

variable {year rest : Int}

theorem marchMonth_bounds
    (hRest : 0 ≤ rest ∧ rest ≤ 365) :
    0 ≤ marchMonth rest ∧ marchMonth rest ≤ 11 := by
  unfold marchMonth
  omega

/- The days of the months before do not pass the day. -/
theorem day_pos
    (rest : Int) :
    1 ≤ rest - (153 * marchMonth rest + 2) / 5 + 1 := by
  unfold marchMonth
  omega

/- The date of a day leads back to the day. -/
theorem days_ofYearDay
    (hRest : 0 ≤ rest ∧ rest ≤ 365) :
    (ofYearDay year rest).days =
      year / 400 * 146097 + startOfYear (year % 400) + rest
        - epoch := by
  have hBounds := marchMonth_bounds hRest
  have hDay :
      ((ofYearDay year rest).day : Int) =
        rest - (153 * marchMonth rest + 2) / 5 + 1 := by
    have hPositive := day_pos rest
    exact Int.toNat_of_nonneg (by omega)
  have hMonth :
      (((ofYearDay year rest).month : Int) + 9) % 12 =
        marchMonth rest := by
    unfold ofYearDay
    simp only
    omega
  have hYear :
      (if (ofYearDay year rest).month ≤ 2 then
          (ofYearDay year rest).year - 1
        else
          (ofYearDay year rest).year) =
        year := by
    unfold ofYearDay
    simp only
    split_ifs <;> omega
  unfold days
  simp only [hYear, hMonth, hDay]
  unfold startOfYear
  omega

/- The calendar has the date of a day. -/
theorem isValid_ofYearDay
    (hRest : 0 ≤ rest ∧ rest ≤ 365)
    (hLeap : rest = 365 → isLeap (year + 1) = true) :
    (ofYearDay year rest).isValid = true := by
  rcases marchMonth_bounds hRest with ⟨hFirst, hLast⟩
  have hDay := day_pos rest
  have hMarch :
      153 * marchMonth rest ≤ 5 * rest + 2 ∧
        5 * rest + 2 < 153 * marchMonth rest + 153 := by
    unfold marchMonth
    omega
  have hFebruary :
      rest - 337 + 1 ≤
        if isLeap (year + 1) = true then 29 else 28 := by
    by_cases hLeapDay : rest = 365
    · rw [hLeap hLeapDay, hLeapDay]
      decide
    · split_ifs <;> omega
  unfold isValid ofYearDay
  simp only [Bool.and_eq_true, decide_eq_true_iff]
  refine ⟨by omega, ?_⟩
  generalize marchMonth rest = month at *
  -- Every month has a length of its own.
  interval_cases month <;> simp [daysInMonth] <;> omega

end YearDays

------------------------------------------------------------
-- Days and dates
------------------------------------------------------------

/- Months and days of the calendar have two digits at most. -/
theorem bounds_of_isValid
    {d : Date}
    (hValid : d.isValid = true) :
    d.month ≤ 12 ∧ d.day ≤ 31 := by
  unfold isValid daysInMonth at hValid
  simp only [Bool.and_eq_true, decide_eq_true_iff,
    List.mem_cons, List.not_mem_nil, or_false] at hValid
  split_ifs at hValid <;> omega

/- The date of a number of days has that number of days. -/
theorem days_ofDays
    (n : Int) :
    (ofDays n).days = n := by
  have hYearDay :=
    yearDay ((n + epoch) % 146097) (by omega) (by omega)
  rw [ofDays_eq]
  simp only
  rw [days_ofYearDay hYearDay.rest_bounds]
  have hYear := hYearDay.year_bounds
  have hGroup :
      (yearOfGroup ((n + epoch) % 146097)
          + (n + epoch) / 146097 * 400) % 400 =
        yearOfGroup ((n + epoch) % 146097) := by
    omega
  rw [hGroup]
  omega

/- A day has a date that the calendar has. -/
theorem isValid_ofDays
    (n : Int) :
    (ofDays n).isValid = true := by
  have hYearDay :=
    yearDay ((n + epoch) % 146097) (by omega) (by omega)
  rw [ofDays_eq]
  apply isValid_ofYearDay hYearDay.rest_bounds
  intro hLast
  have hLeap := hYearDay.leap hLast
  rw [isLeap_iff] at hLeap ⊢
  omega

end Date

end Time

end OrderWatch
