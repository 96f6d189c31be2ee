import OrderWatch.Settings
import OrderWatch.Settings.Placeholder
import OrderWatch.Yaml.Readable

/-
  Settings from a YAML text.

  The values of environment variables are put in first.  A
  field that is left out has its default; fields of other
  names are not looked at.

  Key definitions:
    * `Settings.read?`, `Settings.ofDocument?`
    * `Settings.LoadFault`
    * `Settings.load`
-/

namespace OrderWatch

------------------------------------------------------------
-- Settings from YAML
------------------------------------------------------------

open Yaml (Readable)

variable {N : Type} [Readable N]

namespace TrackerSettings

def read? (form : N) : Option TrackerSettings := do
  let r ← Readable.record? form
  let usual : TrackerSettings := {}
  return {
    capacity :=
      ← r.withDefault "cache_capacity" usual.capacity
        Readable.natural?
    ttl :=
      ← r.withDefault "cache_ttl_secs" usual.ttl
        Readable.floating?
    sweepInterval :=
      ← r.withDefault "sweep_interval_secs" usual.sweepInterval
        Readable.natural?
    policy :=
      ← r.withDefault "terminal_event_policy" usual.policy
        Yaml.worded? }

end TrackerSettings

namespace LogSettings

def read? (form : N) : Option LogSettings := do
  let r ← Readable.record? form
  let usual : LogSettings := {}
  return {
    level :=
      ← r.withDefault "level" usual.level Readable.string?
    format :=
      ← r.withDefault "format" usual.format Readable.string? }

end LogSettings

namespace MetricsSettings

def read? (form : N) : Option MetricsSettings := do
  let r ← Readable.record? form
  let usual : MetricsSettings := {}
  return {
    enabled :=
      ← r.withDefault "enabled" usual.enabled Readable.bool?
    address :=
      ← r.withDefault "listen_addr" usual.address
        Readable.string? }

end MetricsSettings

namespace Settings

def readObservability?
    (form : N) : Option (LogSettings × MetricsSettings) := do
  let r ← Readable.record? form
  return (← r.withDefault "logging" {} LogSettings.read?,
    ← r.withDefault "metrics" {} MetricsSettings.read?)

def read? (form : N) : Option Settings := do
  let r ← Readable.record? form
  let tracker ←
    r.withDefault "tracker" {} TrackerSettings.read?
  let (log, metrics) ←
    r.withDefault "observability" ({}, {}) readObservability?
  return { tracker, log, metrics }

/-
  The settings of a document.  They are read off its node; if
  that fails they are read off its value, where tags and taken
  over entries count.
-/
def ofDocument? (d : Yaml.Document) : Option Settings :=
  read? d.root <|> d.value?.bind read?

/- The settings of a text; an empty one leaves the defaults. -/
def parse? (cs : List Char) : Option Settings :=
  match Yaml.parse? cs with
  | some (some document) => ofDocument? document
  | some none => some {}
  | none => none

------------------------------------------------------------
-- Loading
------------------------------------------------------------

/- Why settings are not to be had. -/
inductive LoadFault where
  | unreadable (path reason : String)
  | unparsable
  | invalid (fault : Fault)
deriving Repr

def LoadFault.message : LoadFault → String
  | .unreadable path reason =>
      s!"Failed to read config file '{path}': {reason}"
  | .unparsable => "Failed to parse config YAML"
  | .invalid fault =>
      "Config validation failed: " ++ fault.message

/- The valid settings of a text. -/
def load
    (env : Placeholder.Environment)
    (text : String) : Except LoadFault Settings :=
  match parse? (Placeholder.interpolate env text.toList) with
  | none => .error .unparsable
  | some settings =>
      match settings.fault? with
      | some fault => .error (.invalid fault)
      | none => .ok settings

/- What is said of a file that does not exist. -/
def missingFile : String :=
  "No such file or directory (os error 2)"

end Settings

end OrderWatch
