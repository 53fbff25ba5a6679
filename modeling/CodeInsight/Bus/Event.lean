import CodeInsight.Analysis.Intent
import CodeInsight.Insight.Insight

/-!
# Events

* an `Event` tells that the analysis of a file was completed, that it failed, or that the file
  suggests an intent;
* every event is about one file and has one kind, under which those who want to hear of it
  register.
-/

namespace CodeInsight

/-- What happened to a file, with the time at which it did. -/
inductive Event where
  | completed (path : String) (insights : List Insight) (time : Instant)
  | failed (path : String) (error : String) (time : Instant)
  | detected (path : String) (signal : Signal) (time : Instant)
  deriving DecidableEq

/-- The kinds of events. -/
inductive EventKind where
  | completed
  | failed
  | detected
  deriving DecidableEq, Repr

namespace EventKind

/-- Every kind. -/
def all : List EventKind := [completed, failed, detected]

/-- The name of a kind. -/
def name : EventKind → String
  | completed => "analysis-complete"
  | failed => "analysis-error"
  | detected => "intent-detected"

/-- The kind with a name. -/
def ofName? (s : String) : Option EventKind := all.find? fun k => k.name == s

end EventKind

namespace Event

/-- The kind of an event. -/
def kind : Event → EventKind
  | completed .. => .completed
  | failed .. => .failed
  | detected .. => .detected

/-- The file an event is about. -/
def path : Event → String
  | completed path _ _ => path
  | failed path _ _ => path
  | detected path _ _ => path

/-- Whether the analysis of a file ends with the event. -/
def isTerminal : Event → Bool
  | completed .. => true
  | failed .. => true
  | detected .. => false

end Event

end CodeInsight
