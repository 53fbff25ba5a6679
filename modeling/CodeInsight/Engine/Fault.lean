import CodeInsight.Source.Language
import CodeInsight.Store.Fault
import CodeInsight.Time.Span

/-!
# What can go wrong in the engine

* a file could not be read, not be parsed, not be analysed in time, or its analysis broke off;
* insights could not be stored, the settings could not be read or are none, or there is nothing
  that could run the engine.
-/

namespace CodeInsight

/-- Why the engine could not do something. -/
inductive EngineFault where
  | unreadable (path : String) (cause : FileFault)
  | unparsable (path : String) (cause : SourceError)
  | timedOut (path : String) (after : Nat)
  | aborted (path reason : String)
  | notStored (cause : StoreFault)
  | noRuntime
  | settingsUnreadable (path : String) (cause : FileFault)
  | settingsInvalid
  deriving DecidableEq, Repr

/-- The text of a cause. -/
def EngineFault.message : EngineFault → String
  | .unreadable path cause => s!"Failed to read {path}: {cause.message}"
  | .unparsable path cause => s!"Failed to parse {path}: {cause.message}"
  | .timedOut path after => s!"Analysis of {path} timed out after {Time.spanText after}"
  | .aborted path reason => s!"Analysis of {path} aborted: {reason}"
  | .notStored cause => s!"Persistence error: {cause.message}"
  | .noRuntime => "No Tokio runtime available to run the scheduler"
  | .settingsUnreadable path cause =>
    s!"Failed to read config {Text.quoted path}: {cause.message}"
  | .settingsInvalid => "Invalid config"

end CodeInsight
