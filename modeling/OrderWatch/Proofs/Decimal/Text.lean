import OrderWatch.Decimal.Text
import OrderWatch.Proofs.Text.Digits

/-
  Reading a decimal undoes writing it.

  A decimal is written with as many fraction digits as its
  scale, zeros included, and reading counts the digits behind
  the point.  No digit is lost on the way: what has been read
  so far is never more than the whole mantissa, and there are
  never more places than the scale.

  Main declarations:
    * `Decimal.readDigits_whole`
    * `Decimal.readDigits_fraction`
    * `Decimal.read?_text`
-/

namespace OrderWatch

namespace Decimal

open Text

variable {negative : Bool} {mantissa scale : Nat}
variable {ds : List Char}

/- The parts of a decimal are the decimal. -/
theorem ofParts?_self
    (d : Decimal) :
    ofParts? d.negative d.mantissa d.scale = some d := by
  have hSign :
      (d.negative && d.mantissa != 0) = d.negative := by
    by_cases hZero : d.mantissa = 0
    · rw [d.zero_unsigned hZero]
      rfl
    · simp [hZero]
  unfold ofParts?
  rw [dif_pos ⟨d.mantissa_lt, d.scale_le⟩]
  simp only [hSign]

/- Digits before the point. -/
theorem readDigits_whole
    (hDigits : ∀ c ∈ ds, isDigit c = true)
    (hFits : extended mantissa ds < bound)
    (negative started : Bool)
    (cs : List Char) :
    readDigits negative false started mantissa 0 (ds ++ cs) =
      readDigits negative false (started || !ds.isEmpty)
        (extended mantissa ds) 0 cs := by
  induction ds generalizing mantissa started with
  | nil =>
      rw [List.nil_append]
      simp [extended]
  | cons c ds ih =>
      have hFirst : isDigit c = true := hDigits c (by simp)
      have hWider :=
        le_extended (mantissa * 10 + (c.toNat - '0'.toNat)) ds
      rw [extended_cons hFirst] at hFits ⊢
      have hRest := ih (by simp_all) hFits true
      rw [List.cons_append, readDigits]
      simp only [digit?_of_isDigit hFirst]
      rw [if_pos (by omega)]
      simpa using hRest

/- Digits behind the point, up to the end of the text. -/
theorem readDigits_fraction
    (hDigits : ∀ c ∈ ds, isDigit c = true)
    (hFits : extended mantissa ds < bound)
    (hPlaces : scale + ds.length ≤ maxScale) :
    readDigits negative true true mantissa scale ds =
      ofParts? negative (extended mantissa ds)
        (scale + ds.length) := by
  induction ds generalizing mantissa scale with
  | nil => rfl
  | cons c ds ih =>
      have hFirst : isDigit c = true := hDigits c (by simp)
      have hWider :=
        le_extended (mantissa * 10 + (c.toNat - '0'.toNat)) ds
      rw [extended_cons hFirst] at hFits ⊢
      rw [List.length_cons] at hPlaces ⊢
      rw [readDigits]
      simp only [digit?_of_isDigit hFirst, if_true]
      rw [if_pos (by omega)]
      by_cases hLast : maxScale ≤ scale + 1
      · have hNone : ds = [] :=
          List.eq_nil_of_length_eq_zero (by omega)
        subst hNone
        rw [if_pos (by simpa using hLast)]
        rfl
      · rw [if_neg (by simpa using hLast),
          ih (by simp_all) hFits (by omega)]
        congr 1
        omega

/- Digits with a point among them, without a sign. -/
theorem readDigits_pointed
    (negative : Bool)
    (hFits : mantissa < bound)
    (hScale : scale ≤ maxScale) :
    readDigits negative false false 0 0
        (pointed mantissa scale) =
      ofParts? negative mantissa scale := by
  rcases pointed_split mantissa scale with
    ⟨whole, fraction, hWhole, hPlaces, hDigits, hValue, hText⟩
  rw [ofDigits_eq_extended, extended_append] at hValue
  have hBefore : extended 0 whole < bound := by
    have hMore := le_extended (extended 0 whole) fraction
    omega
  have hStarted : (false || !whole.isEmpty) = true := by
    simpa using hWhole
  have hWholeDigits : ∀ c ∈ whole, isDigit c = true := by
    intro c hMem
    exact hDigits c (List.mem_append_left fraction hMem)
  have hFractionDigits : ∀ c ∈ fraction, isDigit c = true := by
    intro c hMem
    exact hDigits c (List.mem_append_right whole hMem)
  rw [hText]
  by_cases hNone : scale = 0
  · have hNothing : fraction = [] :=
      List.eq_nil_of_length_eq_zero (by omega)
    subst hNothing
    have hRead :=
      readDigits_whole hWholeDigits hBefore negative false []
    rw [List.append_nil, hStarted] at hRead
    rw [if_pos hNone, hRead, ← hValue, hNone]
    rfl
  · rw [if_neg hNone,
      readDigits_whole hWholeDigits hBefore, hStarted]
    have hPoint :
        readDigits negative false true (extended 0 whole) 0
            ('.' :: fraction) =
          readDigits negative true true (extended 0 whole) 0
            fraction := by
      rw [readDigits]
      rfl
    rw [hPoint,
      readDigits_fraction hFractionDigits (by omega) (by omega),
      hValue, hPlaces, Nat.zero_add]

/- What is written without a sign starts with a digit. -/
theorem readPlain?_pointed
    (n places : Nat) :
    readPlain? (pointed n places) =
      readDigits false false false 0 0 (pointed n places) := by
  rcases pointed_split n places with
    ⟨whole, fraction, hWhole, _, hDigits, _, hText⟩
  cases whole with
  | nil => contradiction
  | cons c whole =>
      have hFirst : isDigit c = true := hDigits c (by simp)
      have hStart : ∃ cs, pointed n places = c :: cs := by
        rw [hText]
        split <;> exact ⟨_, rfl⟩
      rcases hStart with ⟨cs, hStart⟩
      rw [hStart]
      unfold readPlain?
      split
      · rename_i hMinus
        cases hMinus
        contradiction
      · rename_i hPlus
        cases hPlus
        contradiction
      · rfl

/-
  A decimal is read from its text as it was, with its sign,
  all of its digits and its scale.
-/
theorem read?_text
    (d : Decimal) :
    read? d.text = some d := by
  have hDigits :
      readDigits d.negative false false 0 0
          (pointed d.mantissa d.scale) =
        some d := by
    rw [readDigits_pointed d.negative d.mantissa_lt d.scale_le]
    exact ofParts?_self d
  have hPlain : readPlain? d.text = some d := by
    unfold text
    cases hSign : d.negative with
    | true =>
        rw [hSign] at hDigits
        exact hDigits
    | false =>
        rw [hSign] at hDigits
        rw [← hDigits]
        exact readPlain?_pointed d.mantissa d.scale
  unfold read?
  rw [hPlain]

/- A zero keeps its fraction digits, too. -/
example : (read? "0.00".toList).map text = some "0.00".toList := by
  decide

end Decimal

end OrderWatch
