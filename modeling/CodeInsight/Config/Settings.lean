import CodeInsight.Analysis.Thresholds
import CodeInsight.Config.TomlReader

/-!
# The settings of the engine

* how long the engine waits, how long an analysis may take, how long a file may be, and the limits
  of the analysis, all in whole numbers of 64 bits and each with a usual value;
* `Settings.ofToml?` takes what a document says of them and passes over everything else; a setting
  of the wrong kind makes the document none of settings.
-/

namespace CodeInsight

/-- The settings of the engine. Times are in milliseconds, the size is in bytes. -/
structure Settings where
  idleInterval : Nat := 1000
  throttleInterval : Nat := 100
  analysisTimeout : Option Nat := none
  maxFileSize : Nat := 5000000
  thresholds : Thresholds := {}
  deriving DecidableEq, Repr

namespace Settings

instance : Inhabited Settings := ⟨{}⟩

/-- A whole number of 64 bits without a sign. -/
def nat64? : Toml → Option Nat
  | .integer n => if 0 ≤ n ∧ n < powerOfTwo 64 then some n.toNat else none
  | _ => none

/-- Each of the named values decoded, a missing one missing; nothing if one cannot be decoded. -/
def given? (entries : Toml.Entries) (names : List String) : Option (String → Option Nat) :=
  (names.mapM fun name => ((entries.lookup name).mapM nat64?).map fun n => (name, n)).map
    fun found name => (found.lookup name).join

/-- The limits a value gives: in a table, or in their order in an array. A time says nothing. -/
def thresholds? : Toml → Option Thresholds
  | .table _ entries => (given? entries Thresholds.names).map Thresholds.ofGiven
  | .array items => (given? (Thresholds.names.zip items) Thresholds.names).map Thresholds.ofGiven
  | .time => some {}
  | _ => none

/-- The names of the settings that are numbers. -/
def numberNames : List String :=
  ["idle_interval_ms", "throttle_interval_ms", "analysis_timeout_ms", "max_file_size"]

/-- The settings of a document's entries. -/
def ofEntries? (entries : Toml.Entries) : Option Settings := do
  let given ← given? entries numberNames
  let thresholds ← match entries.lookup "thresholds" with
    | none => some {}
    | some v => thresholds? v
  let usual : Settings := {}
  pure
    { idleInterval := (given "idle_interval_ms").getD usual.idleInterval
      throttleInterval := (given "throttle_interval_ms").getD usual.throttleInterval
      analysisTimeout := given "analysis_timeout_ms"
      maxFileSize := (given "max_file_size").getD usual.maxFileSize
      thresholds := thresholds }

/-- The settings that a text in TOML gives. -/
def ofToml? (s : String) : Option Settings :=
  (Toml.readDocument? s.toList).bind ofEntries?

end Settings

end CodeInsight
