/-!
# Log lines

* a `LogLine` is a text at a level; it is shown with the level's name in front.
-/

namespace CodeInsight

/-- How important a log line is. -/
inductive LogLevel where
  | error
  | warn
  | info
  deriving DecidableEq, Repr

/-- The name of a level. -/
def LogLevel.name : LogLevel → String
  | error => "ERROR"
  | warn => "WARN"
  | info => "INFO"

/-- A text at a level. -/
structure LogLine where
  level : LogLevel
  text : String
  deriving DecidableEq, Repr

/-- The line as it is shown. -/
def LogLine.shown (l : LogLine) : String := s!"{l.level.name} {l.text}"

end CodeInsight
