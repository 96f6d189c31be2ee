import Mathlib.Data.List.Nodup
import OrderWatch.Event.Codec
import OrderWatch.Proofs.Decimal.Text
import OrderWatch.Proofs.Json.Reading
import OrderWatch.Proofs.Time.Rfc3339

/-
  Typed values are read as they were written.

  A record that is written under names of its own is found
  again field by field, and what is left of a tagged record
  without its tag is the record.  Plain values, optional ones,
  lists, maps and sets lead back to themselves.

  Main declarations:
    * `Worded.Faithful`
    * `Json.fields?_record`
    * `Json.tagged?_record`
    * `Json.orNull_optional`
    * `Json.list?_array`, `Json.entries?_record`
-/

namespace OrderWatch

/- Words that stand for one value each. -/
class Worded.Faithful (α : Type) [Worded α] : Prop where
  read?_word : ∀ a : α, Worded.read? (Worded.word a) = some a

instance : Worded.Faithful Side where
  read?_word := by
    intro side
    cases side <;> decide

instance : Worded.Faithful OrderKind where
  read?_word := by
    intro kind
    cases kind <;> decide

instance : Worded.Faithful Status where
  read?_word := by
    intro status
    cases status <;> decide

instance : Worded.Faithful Topic where
  read?_word := by
    intro topic
    cases topic with
    | created side => cases side <;> decide
    | completed side => cases side <;> decide
    | _ => decide

namespace Json

variable {α : Type}

------------------------------------------------------------
-- Plain values
------------------------------------------------------------

@[simp] theorem string?_str
    (s : String) :
    string? (str s) = some s :=
  rfl

@[simp] theorem bool?_bool
    (b : Bool) :
    bool? (.bool b) = some b :=
  rfl

@[simp] theorem natural?_nat
    (n : Nat) :
    natural? (nat n) = some n :=
  rfl

/- A whole number of 64 bits with a sign. -/
def Signed64 (n : Int) : Prop :=
  -2 ^ 63 ≤ n ∧ n < 2 ^ 63

instance (n : Int) : Decidable (Signed64 n) :=
  inferInstanceAs (Decidable (_ ∧ _))

theorem integer?_int
    {n : Int}
    (hRange : Signed64 n) :
    integer? (int n) = some n := by
  rcases hRange with ⟨hLow, hHigh⟩
  unfold int
  by_cases hNegative : n < 0
  · rw [if_pos hNegative]
    exact congrArg some (by omega)
  · rw [if_neg hNegative]
    unfold nat integer?
    simp only
    rw [if_pos (by omega)]
    exact congrArg some (by omega)

@[simp] theorem decimal?_decimal
    (d : Decimal) :
    decimal? (decimal d) = some d := by
  change Decimal.read? (String.ofList d.text).toList = some d
  rw [String.toList_ofList]
  exact d.read?_text

theorem moment?_text
    {m : Time.Moment}
    (h : m.IsOrdinary) :
    moment? (str m.text) = some m :=
  Time.Moment.read?_text h

@[simp] theorem worded?_word
    [Worded α] [Worded.Faithful α]
    (a : α) :
    worded? (word a) = some a :=
  Worded.Faithful.read?_word a

------------------------------------------------------------
-- Optional values, lists and maps
------------------------------------------------------------

/- A value that may be absent, if no value is `null`. -/
theorem orNull_optional
    {encode : α → Json}
    {decode : Decoder α}
    {a? : Option α}
    (hNull : ∀ a, encode a ≠ .null)
    (hDecode : ∀ a ∈ a?, decode (encode a) = some a) :
    orNull decode (optional encode a?) = some a? := by
  cases a? with
  | none => rfl
  | some a =>
      unfold optional orNull
      split
      · rename_i hAbsent
        exact absurd hAbsent (hNull a)
      · rw [hDecode a rfl]
        rfl

@[simp] theorem orNull_optional_str
    (s? : Option String) :
    orNull string? (optional str s?) = some s? :=
  orNull_optional (fun _ hNull => by cases hNull)
    fun s _ => string?_str s

@[simp] theorem orNull_optional_nat
    (n? : Option Nat) :
    orNull natural? (optional nat n?) = some n? :=
  orNull_optional (fun _ hNull => by cases hNull)
    fun n _ => natural?_nat n

theorem mapM_map_some
    {β : Type}
    {f : α → β}
    {g : β → Option α}
    (hBack : ∀ a, g (f a) = some a)
    (xs : List α) :
    (xs.map f).mapM g = some xs := by
  induction xs with
  | nil => rfl
  | cons x xs ih =>
      rw [List.map_cons, List.mapM_cons, hBack, ih]
      rfl

theorem list?_array
    {encode : α → Json}
    {decode : Decoder α}
    (hDecode : ∀ a, decode (encode a) = some a)
    (xs : List α) :
    list? decode (.array (xs.map encode)) = some xs :=
  mapM_map_some hDecode xs

theorem entries?_record
    {encode : α → Json}
    {decode : Decoder α}
    (hDecode : ∀ a, decode (encode a) = some a)
    (xs : List (String × α)) :
    entries? decode
        (record (xs.map fun (name, a) => (name, encode a))) =
      some xs := by
  unfold entries? record
  simp only [List.map_map]
  apply mapM_map_some
  rintro ⟨name, a⟩
  simp [hDecode]

/- A map that is rebuilt from its entries. -/
theorem foldl_insert_map
    (t : Std.ExtTreeMap String α compare) :
    t.toList.foldl (fun found e => found.insert e.1 e.2) ∅ =
      t := by
  rw [← Std.ExtTreeMap.ofList_eq_foldl]
  apply Std.ExtTreeMap.ext_getElem?
  intro k
  cases hFound : t[k]? with
  | some a =>
      exact
        Std.ExtTreeMap.getElem?_ofList_of_mem
          Std.ReflCmp.compare_self
          Std.ExtTreeMap.distinct_keys_toList
          (Std.ExtTreeMap.mem_toList_iff_getElem?_eq_some.mpr
            hFound)
  | none =>
      apply Std.ExtTreeMap.getElem?_ofList_of_contains_eq_false
      rw [Std.ExtTreeMap.map_fst_toList_eq_keys]
      simpa using hFound

/- A set that is rebuilt from its members. -/
theorem foldl_insert_set
    (t : Std.ExtTreeSet String compare) :
    t.toList.foldl (fun found s => found.insert s) ∅ = t := by
  rw [← Std.ExtTreeSet.ofList_eq_foldl]
  apply Std.ExtTreeSet.ext_mem
  intro k
  rw [Std.ExtTreeSet.mem_ofList, List.contains_iff_mem,
    Std.ExtTreeSet.mem_toList]

------------------------------------------------------------
-- Records
------------------------------------------------------------

variable {fields : List (String × Json)}

theorem lookup?_record
    {name : String}
    {value : Json}
    (hNodup : (fields.map Prod.fst).Nodup)
    (hMem : (name, value) ∈ fields) :
    lookup? name
        (fields.map fun (name, value) => (some name, value)) =
      some value := by
  induction fields with
  | nil => contradiction
  | cons field fields ih =>
      rcases field with ⟨other, first⟩
      rcases List.nodup_cons.mp hNodup with ⟨hOut, hRest⟩
      rw [List.map_cons, lookup?]
      rcases List.mem_cons.mp hMem with hFirst | hLater
      · cases hFirst
        rw [if_pos rfl]
      · have hOther : other ≠ name := by
          rintro rfl
          exact hOut (List.mem_map.mpr ⟨_, hLater, rfl⟩)
        rw [if_neg (by simpa using hOther)]
        exact ih hRest hLater

/- A record is found under its names as it was written. -/
theorem fields?_record
    (hNodup : (fields.map Prod.fst).Nodup) :
    fields? (fields.map Prod.fst) (record fields) =
      some ⟨false, fields.map fun f => some f.2⟩ := by
  have hNames :
      (fields.map fun (name, value) =>
          ((some name : Option String), value)).map Prod.fst =
        (fields.map Prod.fst).map some := by
    simp
  have hOnce :
      ∀ name,
        ((fields.map Prod.fst).map some).count (some name) ≤
          1 := by
    intro name
    exact
      List.nodup_iff_count_le_one.mp
        (hNodup.map (Option.some_injective String)) (some name)
  have hFound :
      ((fields.map Prod.fst).map fun name =>
          lookup? name
            (fields.map fun (name, value) =>
              (some name, value))) =
        fields.map fun f => some f.2 := by
    rw [List.map_map]
    apply List.map_congr_left
    rintro ⟨name, value⟩ hMem
    exact lookup?_record hNodup hMem
  unfold fields? record
  simp only [hNames]
  rw [if_pos, hFound]
  refine ⟨by simp, ?_⟩
  rw [List.all_eq_true]
  intro name _
  exact decide_eq_true (hOnce name)

namespace Record

variable {β : Type} {r : Record} {i : Nat} {j : Json}

/- A field that has to be there, and what is done with it. -/
theorem bind_required
    {decode : Decoder α}
    {a : α}
    {next : α → Option β}
    {y : Option β}
    (hAt : r.at? i = some j)
    (hDecode : decode j = some a)
    (hNext : next a = y) :
    r.required i decode >>= next = y := by
  refine Text.bind_of_eq ?_ hNext
  unfold required
  rw [hAt]
  exact hDecode

/- The same for a field that may be `null`. -/
theorem bind_nullable
    {decode : Decoder α}
    {a? : Option α}
    {next : Option α → Option β}
    {y : Option β}
    (hAt : r.at? i = some j)
    (hDecode : orNull decode j = some a?)
    (hNext : next a? = y) :
    r.nullable i decode >>= next = y := by
  refine Text.bind_of_eq ?_ hNext
  unfold nullable
  rw [hAt]
  exact hDecode

end Record

/- The tag of an object is its only field of that name. -/
theorem count_tagged
    {tag : Option String}
    {rest : List (Option String × Json)}
    (hNew : tag ∉ rest.map Prod.fst)
    (j : Json) :
    (((tag, j) :: rest).map Prod.fst).count tag = 1 := by
  rw [List.map_cons, List.count_cons_self,
    List.count_eq_zero.mpr hNew]

/- What is left of an object without its tag. -/
theorem filter_tagged
    {tag : Option String}
    {rest : List (Option String × Json)}
    (hNew : tag ∉ rest.map Prod.fst)
    (j : Json) :
    ((tag, j) :: rest).filter (fun f => f.1 != tag) = rest := by
  rw [List.filter_cons_of_neg (by simp), List.filter_eq_self]
  intro f hMem
  have hOther : f.1 ≠ tag := by
    intro hSame
    exact hNew (hSame ▸ List.mem_map_of_mem hMem)
  simpa using hOther

/-
  What is left of a record that has been tagged, and the tag
  itself, if the record is not nested too deep.
-/
theorem tagged?_record
    {tag name : String}
    (hNew : tag ∉ fields.map Prod.fst)
    (hReadable : (record fields).isReadable = true)
    (hDepth : (record fields).depth ≤ maxDepth) :
    tagged? tag (record ((tag, str name) :: fields)) =
      some (name, record fields) := by
  let rest := fields.map fun (name, value) =>
    ((some name : Option String), value)
  have hNames :
      rest.map Prod.fst = (fields.map Prod.fst).map some := by
    simp [rest]
  have hOut : some tag ∉ rest.map Prod.fst := by
    rw [hNames]
    simpa using hNew
  have hReadable' :
      isReadable (.object ((some tag, str name) :: rest)) =
        true := by
    change haveReadable rest = true at hReadable
    simpa [isReadable, haveReadable, str] using hReadable
  have hDepth' :
      depth (.object ((some tag, str name) :: rest)) ≤
        maxDepth := by
    change depthFields rest + 1 ≤ maxDepth at hDepth
    simpa [depth, depthFields, str] using hDepth
  change tagged? tag (.object ((some tag, str name) :: rest)) = _
  unfold tagged?
  simp only
  rw [if_pos ⟨hReadable', hDepth', count_tagged hOut _⟩,
    filter_tagged hOut, lookup?, if_pos rfl]
  rfl

------------------------------------------------------------
-- Exact records
------------------------------------------------------------

/- The values of a record are exact and hardly nested. -/
structure Plain (j : Json) : Prop where
  exact : j.isExact = true
  depth_le : j.depth ≤ 1

@[simp] theorem plain_str (s : String) : (str s).Plain :=
  ⟨rfl, Nat.zero_le 1⟩

@[simp] theorem plain_decimal
    (d : Decimal) :
    (decimal d).Plain :=
  plain_str _

@[simp] theorem plain_word
    [Worded α]
    (a : α) :
    (word a).Plain :=
  plain_str _

@[simp] theorem plain_bool (b : Bool) : (Json.bool b).Plain :=
  ⟨rfl, Nat.zero_le 1⟩

theorem plain_nat
    {n : Nat}
    (hFits : n < 2 ^ 64) :
    (nat n).Plain :=
  ⟨decide_eq_true hFits, Nat.zero_le 1⟩

theorem plain_int
    {n : Int}
    (hRange : Signed64 n) :
    (int n).Plain := by
  rcases hRange with ⟨hLow, hHigh⟩
  unfold int
  by_cases hNegative : n < 0
  · rw [if_pos hNegative]
    refine ⟨?_, Nat.zero_le 1⟩
    simp [isExact, Number.isExact]
    omega
  · rw [if_neg hNegative]
    exact plain_nat (by omega)

theorem plain_optional
    {encode : α → Json}
    {a? : Option α}
    (hPlain : ∀ a ∈ a?, (encode a).Plain) :
    (optional encode a?).Plain := by
  cases a? with
  | none => exact ⟨rfl, Nat.zero_le 1⟩
  | some a => exact hPlain a rfl

@[simp] theorem plain_optional_str
    (s? : Option String) :
    (optional str s?).Plain :=
  plain_optional fun s _ => plain_str s

/- Records of exact values are exact. -/
theorem isExact_record
    (hExact : ∀ f ∈ fields, f.2.isExact = true) :
    (record fields).isExact = true := by
  unfold record isExact
  induction fields with
  | nil => rfl
  | cons field fields ih =>
      rcases field with ⟨name, value⟩
      have hFirst : value.isExact = true :=
        hExact (name, value) (by simp)
      have hRest := ih fun f hMem => hExact f (by simp [hMem])
      simp [haveExact, hFirst, hRest]

/- A record is nested once more than its values. -/
theorem depth_record_le
    {n : Nat}
    (hDepth : ∀ f ∈ fields, f.2.depth ≤ n) :
    (record fields).depth ≤ n + 1 := by
  unfold record depth
  apply Nat.succ_le_succ
  induction fields with
  | nil => exact Nat.zero_le n
  | cons field fields ih =>
      rcases field with ⟨name, value⟩
      have hFirst : value.depth ≤ n :=
        hDepth (name, value) (by simp)
      have hRest := ih fun f hMem => hDepth f (by simp [hMem])
      simpa [depthFields] using ⟨hFirst, hRest⟩

/- A record of values that are not nested. -/
theorem plain_record
    (hExact : ∀ f ∈ fields, f.2.isExact = true)
    (hDepth : ∀ f ∈ fields, f.2.depth = 0) :
    (record fields).Plain :=
  ⟨isExact_record hExact,
    depth_record_le fun f hMem => (hDepth f hMem).le⟩

theorem plain_entries
    {encode : α → Json}
    (hExact : ∀ a, (encode a).isExact = true)
    (hDepth : ∀ a, (encode a).depth = 0)
    (xs : List (String × α)) :
    (record (xs.map fun (name, a) => (name, encode a))).Plain := by
  apply plain_record
  · intro f hMem
    rcases List.mem_map.mp hMem with ⟨⟨name, a⟩, _, rfl⟩
    exact hExact a
  · intro f hMem
    rcases List.mem_map.mp hMem with ⟨⟨name, a⟩, _, rfl⟩
    exact hDepth a

theorem plain_strings
    (xs : List String) :
    (Json.array (xs.map str)).Plain := by
  refine ⟨?_, Nat.succ_le_succ ?_⟩
  · unfold isExact
    induction xs with
    | nil => rfl
    | cons x xs ih => exact ih
  · induction xs with
    | nil => exact Nat.le_refl 0
    | cons x xs ih =>
        rw [List.map_cons, depthItems]
        exact Nat.max_le.mpr ⟨Nat.le_refl 0, ih⟩

end Json

end OrderWatch
