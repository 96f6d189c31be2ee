import OrderWatch.Address
import OrderWatch.Event.Emission
import OrderWatch.Floating
import OrderWatch.Journal
import OrderWatch.Order.Codec

/-
  What a tracker can be told to do otherwise.

  Every setting has a default.  The time for which retired
  orders are kept is given in seconds and held to the nearest
  nanosecond, an even one on a tie.

  Key definitions:
    * `Settings`
    * `TrackerSettings.lifetime`
    * `Settings.check`
    * `Settings.decode?`
-/

namespace OrderWatch

structure TrackerSettings where
  /- How many retired orders are kept. -/
  capacity : Nat := 1000
  /- For how many seconds a retired order is kept. -/
  ttl : Float := 30.0
  /- The seconds between two sweeps of the cache. -/
  sweepInterval : Nat := 5
  policy : TerminalPolicy := .once
deriving Repr

structure LogSettings where
  level : String := "info"
  format : String := "json"
deriving DecidableEq, Repr

structure MetricsSettings where
  enabled : Bool := false
  address : String := "0.0.0.0:9090"
deriving DecidableEq, Repr

structure Settings where
  tracker : TrackerSettings := {}
  log : LogSettings := {}
  metrics : MetricsSettings := {}
deriving Repr

------------------------------------------------------------
-- Lifetimes
------------------------------------------------------------

namespace TrackerSettings

/- The longest lifetime there is, in nanoseconds. -/
def maxLifetime : Nat :=
  2 ^ 64 * 1000000000 - 1

/- `n / d` rounded to the nearest number, half to even. -/
def nearest (n d : Nat) : Nat :=
  let rest := 2 * (n % d)
  if rest > d ∨ (rest = d ∧ n / d % 2 = 1) then
    n / d + 1
  else
    n / d

/-
  The lifetime of a retired order in nanoseconds, unless it
  is negative, no number, or `2 ^ 64` seconds or more.
-/
def lifetime? (s : TrackerSettings) : Option Nat :=
  match Floating.parts s.ttl with
  | .finite negative mantissa exponent =>
      let (n, d) := Floating.ratio mantissa exponent
      if (negative && mantissa != 0) || 2 ^ 64 * d ≤ n then
        none
      else
        some (nearest (n * 1000000000) d)
  | _ => none

/- The lifetime, the longest one if there is no other. -/
def lifetime (s : TrackerSettings) : Nat :=
  s.lifetime?.getD maxLifetime

/- Whether the lifetime is a number above zero. -/
def ttlIsPositive (s : TrackerSettings) : Bool :=
  match Floating.parts s.ttl with
  | .finite negative mantissa _ => !negative && mantissa != 0
  | _ => false

end TrackerSettings

------------------------------------------------------------
-- Validity
------------------------------------------------------------

namespace Settings

/- What is wrong with settings. -/
inductive Fault where
  | noCapacity
  | ttlNotPositive
  | ttlTooLarge (seconds : Float)
  | noSweepInterval
  | unknownLevel
  | unknownFormat
  | badAddress (address : String)
deriving Repr

def levels : List String :=
  ["trace", "debug", "info", "warn", "error"]

def formats : List String :=
  ["json", "pretty"]

/- Words in brackets, each in quotes. -/
def listed (words : List String) : String :=
  "[" ++ ", ".intercalate (words.map fun w => "\"" ++ w ++ "\"")
    ++ "]"

def Fault.message : Fault → String
  | .noCapacity => "tracker.cache_capacity must be positive"
  | .ttlNotPositive =>
      "tracker.cache_ttl_secs must be a positive number"
  | .ttlTooLarge seconds =>
      "tracker.cache_ttl_secs "
        ++ String.ofList (Floating.text seconds)
        ++ " is too large"
  | .noSweepInterval =>
      "tracker.sweep_interval_secs must be positive"
  | .unknownLevel =>
      "logging.level must be one of: " ++ listed levels
  | .unknownFormat =>
      "logging.format must be one of: " ++ listed formats
  | .badAddress address =>
      s!"metrics.listen_addr '{address}' "
        ++ "is not a valid socket address"

/- The first thing that is wrong with settings, if any. -/
def fault? (s : Settings) : Option Fault :=
  if s.tracker.capacity = 0 then
    some .noCapacity
  else if !s.tracker.ttlIsPositive then
    some .ttlNotPositive
  else if s.tracker.lifetime?.isNone then
    some (.ttlTooLarge s.tracker.ttl)
  else if s.tracker.sweepInterval = 0 then
    some .noSweepInterval
  else if s.log.level.toLower ∉ levels then
    some .unknownLevel
  else if s.log.format ∉ formats then
    some .unknownFormat
  else if s.metrics.enabled
      ∧ (Address.read? s.metrics.address).isNone then
    some (.badAddress s.metrics.address)
  else
    none

end Settings

------------------------------------------------------------
-- Settings from JSON
------------------------------------------------------------

open Json (string? natural? bool? floating? worded?)

namespace TrackerSettings

def fieldNames : List String :=
  ["cache_capacity", "cache_ttl_secs", "sweep_interval_secs",
    "terminal_event_policy"]

def decode? : Json.Decoder TrackerSettings := fun j => do
  let r ← Json.fields? fieldNames j
  let usual : TrackerSettings := {}
  return {
    capacity := ← r.withDefault 0 usual.capacity natural?
    ttl := ← r.withDefault 1 usual.ttl floating?
    sweepInterval :=
      ← r.withDefault 2 usual.sweepInterval natural?
    policy := ← r.withDefault 3 usual.policy worded? }

end TrackerSettings

namespace LogSettings

def fieldNames : List String :=
  ["level", "format"]

def decode? : Json.Decoder LogSettings := fun j => do
  let r ← Json.fields? fieldNames j
  let usual : LogSettings := {}
  return {
    level := ← r.withDefault 0 usual.level string?
    format := ← r.withDefault 1 usual.format string? }

end LogSettings

namespace MetricsSettings

def fieldNames : List String :=
  ["enabled", "listen_addr"]

def decode? : Json.Decoder MetricsSettings := fun j => do
  let r ← Json.fields? fieldNames j
  let usual : MetricsSettings := {}
  return {
    enabled := ← r.withDefault 0 usual.enabled bool?
    address := ← r.withDefault 1 usual.address string? }

end MetricsSettings

namespace Settings

def fieldNames : List String :=
  ["tracker", "observability"]

def observabilityNames : List String :=
  ["logging", "metrics"]

def observability? :
    Json.Decoder (LogSettings × MetricsSettings) := fun j => do
  let r ← Json.fields? observabilityNames j
  return (← r.withDefault 0 {} LogSettings.decode?,
    ← r.withDefault 1 {} MetricsSettings.decode?)

def decode? : Json.Decoder Settings := fun j => do
  let r ← Json.fields? fieldNames j
  let tracker ← r.withDefault 0 {} TrackerSettings.decode?
  let (log, metrics) ← r.withDefault 1 ({}, {}) observability?
  return { tracker, log, metrics }

end Settings

end OrderWatch
