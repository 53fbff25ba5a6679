import CodeInsight.Files.Fault
import CodeInsight.Text.Quoted

/-!
# What can go wrong with stored insights

* a file could not be used, a record is no list of insights, or there is no place to keep records.
-/

namespace CodeInsight

/-- Why stored insights could not be used. -/
inductive StoreFault where
  | file (cause : FileFault)
  | notInsights
  | directoryNotMade (path : String)
  | noSystemDirectory
  deriving DecidableEq, Repr

/-- The text of a cause. -/
def StoreFault.message : StoreFault → String
  | .file cause => s!"IO error: {cause.message}"
  | .notInsights => "JSON error"
  | .directoryNotMade path => s!"Failed to create data directory: {Text.quoted path}"
  | .noSystemDirectory => "Failed to determine system data directory"

end CodeInsight
