import Mathlib
import OrderWatch.Proofs.Desk.Activity
import OrderWatch.Proofs.Desk.Lapsing
import OrderWatch.Proofs.Desk.Readback
import OrderWatch.Settings.Load

/-
  What accepted settings make of a tracker.

  Settings are accepted if the time for which retired orders
  are kept is above zero, in seconds.  The tracker goes by the
  nearest number of nanoseconds, and that is zero for half a
  nanosecond or less.  So a tracker with accepted settings has
  a capacity above zero and finds an order that has just been
  retired, unless the time is as short as that: then no order
  that has been retired is found again.

  Main declarations:
    * `Settings.fault?_eq_none_iff`, `Settings.load_eq_ok_iff`
    * `TrackerSettings.Lasts`
    * `TrackerSettings.Nearest`, `TrackerSettings.nearest_spec`
    * `TrackerSettings.KeepsRetired`
    * `TrackerSettings.LosesRetired`
    * `Settings.Sound`, `Settings.sound_of_load`
-/

namespace OrderWatch

------------------------------------------------------------
-- Rounding
------------------------------------------------------------

namespace TrackerSettings

variable {n d q : Nat}

/- No number is nearer to `n / d`; on a tie it is even. -/
structure Nearest (n d q : Nat) : Prop where
  not_below : 2 * n ≤ 2 * (q * d) + d
  not_above : 2 * (q * d) ≤ 2 * n + d
  even :
    2 * n = 2 * (q * d) + d ∨ 2 * (q * d) = 2 * n + d →
      q % 2 = 0

theorem nearest_spec
    (hPos : 0 < d)
    (n : Nat) :
    Nearest n d (nearest n d) := by
  have hSplit := Nat.div_add_mod' n d
  have hRest := Nat.mod_lt n hPos
  have hNext : (n / d + 1) * d = n / d * d + d :=
    Nat.succ_mul (n / d) d
  unfold nearest
  simp only
  split
  · exact ⟨by omega, by omega, by omega⟩
  · exact ⟨by omega, by omega, by omega⟩

/- Nothing but half of one or less is rounded to zero. -/
theorem Nearest.pos_iff
    (h : Nearest n d q)
    (hPos : 0 < d) :
    0 < q ↔ d < 2 * n := by
  have hBelow := h.not_below
  have hAbove := h.not_above
  constructor
  · intro hSome
    by_contra hSmall
    have hOne : q * d ≤ 1 * d := by omega
    have hLe : q ≤ 1 := Nat.le_of_mul_le_mul_right hOne hPos
    have hEq : q = 1 := by omega
    subst hEq
    have hEven := h.even (Or.inr (by omega))
    contradiction
  · intro hLess
    by_contra hNone
    have hEq : q = 0 := by omega
    subst hEq
    omega

------------------------------------------------------------
-- Lifetimes
------------------------------------------------------------

variable {s : TrackerSettings}

/- Retired orders are to be kept for `n / d` seconds. -/
def Lasts (s : TrackerSettings) (n d : Nat) : Prop :=
  ∃ mantissa exponent,
    Floating.parts s.ttl = .finite false mantissa exponent ∧
      Floating.ratio mantissa exponent = (n, d)

theorem ratio_pos
    {mantissa : Nat}
    (hPos : 0 < mantissa)
    (exponent : Int) :
    0 < (Floating.ratio mantissa exponent).1 ∧
      0 < (Floating.ratio mantissa exponent).2 := by
  have hPower : ∀ k, 0 < 2 ^ k := fun k => Nat.two_pow_pos k
  unfold Floating.ratio
  split
  · exact ⟨Nat.mul_pos hPos (hPower _), Nat.one_pos⟩
  · exact ⟨hPos, hPower _⟩

/- A number of seconds above zero is a fraction above zero. -/
theorem lasts_of_positive
    (hPositive : s.ttlIsPositive = true) :
    ∃ n d, s.Lasts n d ∧ 0 < n ∧ 0 < d := by
  unfold ttlIsPositive at hPositive
  cases hParts : Floating.parts s.ttl with
  | finite negative mantissa exponent =>
      rw [hParts] at hPositive
      simp at hPositive
      rcases hPositive with ⟨rfl, hSome⟩
      have hRatio := ratio_pos (Nat.pos_of_ne_zero hSome) exponent
      exact ⟨_, _, ⟨mantissa, exponent, hParts, rfl⟩, hRatio⟩
  | notANumber =>
      rw [hParts] at hPositive
      contradiction
  | infinite negative =>
      rw [hParts] at hPositive
      contradiction

/- The nanoseconds are the ones nearest to the seconds. -/
theorem Lasts.lifetime?_eq
    {n d : Nat}
    (h : s.Lasts n d) :
    s.lifetime? =
      if 2 ^ 64 * d ≤ n then none
      else some (nearest (n * 1000000000) d) := by
  rcases h with ⟨mantissa, exponent, hParts, hRatio⟩
  unfold lifetime?
  rw [hParts]
  simp only [hRatio, Bool.false_and, Bool.false_or,
    decide_eq_true_eq]

theorem Lasts.nearest_lifetime
    {n d : Nat}
    (h : s.Lasts n d)
    (hPos : 0 < d)
    (hSome : s.lifetime?.isSome) :
    s.lifetime? = some s.lifetime ∧
      Nearest (n * 1000000000) d s.lifetime := by
  have hLifetime := h.lifetime?_eq
  unfold lifetime
  split at hLifetime
  · rw [hLifetime] at hSome
    contradiction
  · rw [hLifetime, Option.getD_some]
    exact ⟨rfl, nearest_spec hPos _⟩

------------------------------------------------------------
-- Retired orders
------------------------------------------------------------

/- The tracker that is opened with the settings. -/
def opened (s : TrackerSettings) (clock : Time.Clock) : Tracker :=
  .opening s.policy s.capacity s.lifetime clock

/-
  An order that is retired is found as long as the clock
  stands still, whatever has been done before.  In between
  orders are looked up, and the cache is swept.
-/
def KeepsRetired (s : TrackerSettings) : Prop :=
  ∀ clock before id o between,
    ((s.opened clock).afterAll before).fetchActive id = some o →
    (∀ a ∈ between, Deed.Keeps a) →
    (((s.opened clock).afterAll
        (before ++ .stop id :: between)).fetch id).2 = some o

/-
  An order that is retired is never found again, whatever is
  done before and afterwards, unless it is started again.
-/
def LosesRetired (s : TrackerSettings) : Prop :=
  ∀ clock before id o later,
    ((s.opened clock).afterAll before).fetchActive id = some o →
    (∀ p, .start p ∈ later → p.id ≠ id) →
    (((s.opened clock).afterAll
        (before ++ .stop id :: later)).fetch id).2 = none

theorem made_afterAll
    (s : TrackerSettings)
    (clock : Time.Clock)
    (ds : List Deed) :
    ((s.opened clock).afterAll ds).book.Made s.capacity
      s.lifetime :=
  Tracker.lasting_afterAll
    (Book.lasting_made s.capacity s.lifetime)
    (Book.made_empty s.capacity s.lifetime) ds

theorem keepsRetired_of_pos
    (hCapacity : 0 < s.capacity)
    (hLifetime : 0 < s.lifetime) :
    s.KeepsRetired := by
  intro clock before id o between hActive hKeeps
  let t := (s.opened clock).afterAll before
  have hMade : t.book.Made s.capacity s.lifetime :=
    s.made_afterAll clock before
  have hFound : ((t.stop id).1.fetch id).2 = some o :=
    (Tracker.stop_front hMade hCapacity hLifetime hActive).1
  have hWhole : (t.stop id).1.book.Whole := by
    rw [Tracker.book_of_core (t.core_stop id).1]
    exact Book.whole_stop hMade.whole t.now id
  have hMirrors := (Tracker.Mirrors.refl hWhole).afterAll hKeeps
  rw [Tracker.afterAll_append]
  exact (hMirrors.fetch_eq id).trans hFound

theorem losesRetired_of_zero
    (hLifetime : s.lifetime = 0) :
    s.LosesRetired := by
  intro clock before id o later hActive hOther
  let t := (s.opened clock).afterAll before
  let t' := (t.after (.stop id)).afterAll later
  have hMade : t.book.Made s.capacity s.lifetime :=
    s.made_afterAll clock before
  have hMade' : t'.book.Made s.capacity s.lifetime := by
    have hAfter :=
      s.made_afterAll clock (before ++ .stop id :: later)
    rw [Tracker.afterAll_append] at hAfter
    exact hAfter
  have hStopped :
      (t.after (.stop id)).book.RetiredBy t.now id := by
    change (t.stop id).1.book.RetiredBy t.now id
    rw [Tracker.book_of_core (t.core_stop id).1]
    exact Book.retiredBy_stop hMade.whole hActive t.now
  have hRetired : t'.book.RetiredBy t.now id :=
    Tracker.steady_afterAll (Book.steady_retiredBy t.now id)
      (fun hElse h => h.start hElse) hStopped hOther
  rw [Tracker.afterAll_append]
  change (t'.book.find t'.now id).2 = none
  rw [Book.find_of_retired hRetired.inactive]
  change (t'.book.retired.get t'.now id).2 = none
  -- The clock may have run over, so no age is known here; but
  -- at no age does an entry live.
  have hTtl : t'.book.retired.ttl = 0 :=
    hMade'.ttl_eq.trans hLifetime
  rw [Cache.get_shown,
    Cache.shown?_of_ttl_zero hTtl, Option.map_none]

end TrackerSettings

------------------------------------------------------------
-- Accepted settings
------------------------------------------------------------

namespace Settings

variable {s : Settings} {env : Placeholder.Environment}
variable {text : String}

/- A check that is made before others. -/
theorem ite_some_eq_none_iff
    {α : Type}
    {p : Prop}
    [Decidable p]
    {a : α}
    {rest : Option α} :
    (if p then some a else rest) = none ↔ ¬p ∧ rest = none := by
  split
  · rename_i hHolds
    simp [hHolds]
  · rename_i hFails
    simp [hFails]

/- Settings in which no fault is found. -/
theorem fault?_eq_none_iff :
    s.fault? = none ↔
      0 < s.tracker.capacity ∧
      s.tracker.ttlIsPositive = true ∧
      s.tracker.lifetime?.isSome ∧
      0 < s.tracker.sweepInterval ∧
      s.log.level.toLower ∈ levels ∧
      s.log.format ∈ formats ∧
      (s.metrics.enabled = true →
        (Address.read? s.metrics.address).isSome) := by
  unfold fault?
  simp only [ite_some_eq_none_iff, Nat.pos_iff_ne_zero,
    Option.isSome_iff_ne_none, Option.isNone_iff_eq_none,
    Bool.not_eq_true', Bool.not_eq_false, not_not, not_and,
    and_true, ne_eq]

/- What is accepted has been read, and is without fault. -/
theorem load_eq_ok_iff :
    load env text = .ok s ↔
      parse? (Placeholder.interpolate env text.toList) = some s ∧
        s.fault? = none := by
  unfold load
  cases hParsed :
      parse? (Placeholder.interpolate env text.toList) with
  | none => simp
  | some r =>
      cases hFault : r.fault? with
      | none =>
          simp only [hFault, Except.ok.injEq, Option.some.injEq]
          constructor
          · rintro rfl
            exact ⟨rfl, hFault⟩
          · exact And.left
      | some fault =>
          simp only [hFault, reduceCtorEq, Option.some.injEq,
            false_iff]
          rintro ⟨rfl, hNone⟩
          rw [hFault] at hNone
          contradiction

/-
  The capacity and the period are not zero, the lifetime is
  the time that is given, and metrics have an address to be
  read at.  Whether there is memory for as many orders as the
  capacity allows is not asked.
-/
structure Sound (s : Settings) : Prop where
  capacity : 0 < s.tracker.capacity
  /- The lifetime is not the one for want of another. -/
  converted : s.tracker.lifetime? = some s.tracker.lifetime
  interval : 0 < s.tracker.sweepInterval
  address :
    s.metrics.enabled = true →
      (Address.read? s.metrics.address).isSome

/-
  Settings that are accepted are sound, and orders are kept
  for the nanoseconds nearest to the seconds that are given.
  If these are more than half a nanosecond, an order that has
  just been retired is found, and otherwise none is.
-/
theorem sound_of_load
    (hLoad : load env text = .ok s) :
    s.Sound ∧
      ∃ n d,
        s.tracker.Lasts n d ∧ 0 < n ∧ 0 < d ∧
        TrackerSettings.Nearest (n * 1000000000) d
          s.tracker.lifetime ∧
        (d < 2 * (n * 1000000000) →
          0 < s.tracker.lifetime ∧ s.tracker.KeepsRetired) ∧
        (2 * (n * 1000000000) ≤ d →
          s.tracker.lifetime = 0 ∧ s.tracker.LosesRetired) := by
  have hFault := (load_eq_ok_iff.mp hLoad).2
  rcases fault?_eq_none_iff.mp hFault with
    ⟨hCapacity, hPositive, hSome, hInterval, -, -, hAddress⟩
  rcases TrackerSettings.lasts_of_positive hPositive with
    ⟨n, d, hLasts, hSeconds, hPos⟩
  rcases hLasts.nearest_lifetime hPos hSome with
    ⟨hConverted, hNearest⟩
  have hRounded := hNearest.pos_iff hPos
  refine
    ⟨⟨hCapacity, hConverted, hInterval, hAddress⟩,
      n, d, hLasts, hSeconds, hPos, hNearest, ?_, ?_⟩
  · intro hLong
    have hLifetime := hRounded.mpr hLong
    exact
      ⟨hLifetime,
        TrackerSettings.keepsRetired_of_pos hCapacity hLifetime⟩
  · intro hShort
    have hLifetime : s.tracker.lifetime = 0 := by omega
    exact
      ⟨hLifetime, TrackerSettings.losesRetired_of_zero hLifetime⟩

/- A text whose document is read off its node. -/
theorem load_of_root
    (root : Yaml.Node)
    (hRoot :
      (Yaml.parse? (Placeholder.interpolate env text.toList)).map
          (Option.map Yaml.Document.root) =
        some (some root))
    (hRead : read? root = some s)
    (hFault : s.fault? = none) :
    load env text = .ok s := by
  refine load_eq_ok_iff.mpr ⟨?_, hFault⟩
  rcases Option.map_eq_some_iff.mp hRoot with ⟨d?, hParsed, hSome⟩
  rcases Option.map_eq_some_iff.mp hSome with ⟨d, rfl, rfl⟩
  unfold parse?
  rw [hParsed]
  unfold ofDocument?
  simp only
  rw [hRead]
  rfl

/- The node of a text that names nothing but a lifetime. -/
def ttlNode (seconds : String) : Yaml.Node :=
  let word := fun w : String => Yaml.Node.scalar [] .plain w.toList
  .mapping []
    [(word "tracker",
      .mapping [] [(word "cache_ttl_secs", word seconds)])]

/- A nanosecond is enough for a retired order to be found. -/
theorem sound_of_load_nanosecond :
    ∃ s,
      load (fun _ => none)
          "tracker:\n  cache_ttl_secs: $\x7bTTL:-1e-9\x7d\n" =
        .ok s ∧
      s.Sound ∧ s.tracker.lifetime = 1 ∧
      s.tracker.KeepsRetired := by
  let s : Settings :=
    { tracker := { ttl := Float.ofScientific 1 true 9 } }
  have hLoad :
      load (fun _ => none)
          "tracker:\n  cache_ttl_secs: $\x7bTTL:-1e-9\x7d\n" =
        .ok s := by
    apply load_of_root (ttlNode "1e-9")
    · cbv
    · rfl
    · exact Option.isNone_iff_eq_none.mp (by decide +kernel)
  have hLifetime : s.tracker.lifetime = 1 := by decide +kernel
  rcases sound_of_load hLoad with
    ⟨hSound, n, d, -, -, -, -, hLong, hShort⟩
  refine ⟨s, hLoad, hSound, hLifetime, ?_⟩
  rcases Nat.lt_or_ge d (2 * (n * 1000000000)) with hMore | hLess
  · exact (hLong hMore).2
  · rw [(hShort hLess).1] at hLifetime
    contradiction

/-
  A tenth of a nanosecond is accepted, although an order that
  is retired is gone at once.
-/
theorem not_keepsRetired_tiny :
    ∃ s,
      load (fun _ => none)
          "tracker:\n  cache_ttl_secs: 1e-10\n" =
        .ok s ∧
      s.tracker.lifetime = 0 ∧ ¬s.tracker.KeepsRetired := by
  let s : Settings :=
    { tracker := { ttl := Float.ofScientific 1 true 10 } }
  have hLoad :
      load (fun _ => none)
          "tracker:\n  cache_ttl_secs: 1e-10\n" =
        .ok s := by
    apply load_of_root (ttlNode "1e-10")
    · cbv
    · rfl
    · exact Option.isNone_iff_eq_none.mp (by decide +kernel)
  have hLifetime : s.tracker.lifetime = 0 := by decide +kernel
  refine ⟨s, hLoad, hLifetime, ?_⟩
  intro hKeeps
  let o := Order.ofRequest Order.sampleRequest
  have hActive :
      ((s.tracker.opened default).afterAll
        [.start o]).fetchActive "a" = some o := by
    decide +kernel
  have hFound :=
    hKeeps default [.start o] "a" o [] hActive (by simp)
  have hLost :=
    TrackerSettings.losesRetired_of_zero hLifetime default
      [.start o] "a" o [] hActive (by simp)
  rw [hFound] at hLost
  contradiction

end Settings

end OrderWatch
