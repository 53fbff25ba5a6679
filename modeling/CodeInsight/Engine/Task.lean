import CodeInsight.Insight.Encoding

/-!
# Tasks

* a `Task` is one request to analyse a file; its identity is the path and the microsecond of the
  request (`Task.of`), so tasks of different times have different identities;
* its kind is kept for whoever asks; it changes nothing.
-/

namespace CodeInsight

/-- How urgent a task is. -/
inductive Priority where
  | low
  | medium
  | high
  deriving DecidableEq, Repr

namespace Priority

instance : Inhabited Priority := ⟨medium⟩

/-- Every priority, the least first. -/
def all : List Priority := [low, medium, high]

/-- The name of a priority. -/
def name : Priority → String
  | low => "low"
  | medium => "medium"
  | high => "high"

/-- The place in the order. -/
def rank : Priority → Nat
  | low => 0
  | medium => 1
  | high => 2

/-- The priority with the name, in whatever case it is written. -/
def ofName? (s : String) : Option Priority :=
  let lower := s.map Char.toLower
  all.find? fun p => p.name == lower

/-- What is said of a name that no priority has. -/
def unknownMessage (s : String) : String :=
  s!"unknown priority '{s.map Char.toLower}', expected high, medium or low"

/-- A priority as JSON. -/
def toJson (p : Priority) : Json := Json.ofText p.name

/-- The priority a value names. -/
def ofJson? (j : Json) : Option Priority := Json.choice? name all j

end Priority

/-- What is to be done. -/
inductive TaskKind where
  | full
  | incremental
  deriving DecidableEq, Repr

namespace TaskKind

instance : Inhabited TaskKind := ⟨full⟩

/-- Every kind. -/
def all : List TaskKind := [full, incremental]

/-- The name of a kind. -/
def name : TaskKind → String
  | full => "full"
  | incremental => "incremental"

/-- A kind as JSON. -/
def toJson (k : TaskKind) : Json := Json.ofText k.name

/-- The kind a value names. -/
def ofJson? (j : Json) : Option TaskKind := Json.choice? name all j

end TaskKind

/-- A request to analyse a file. -/
structure Task where
  id : String
  path : String
  priority : Priority
  kind : TaskKind
  enqueuedAt : Instant
  deriving DecidableEq

namespace Task

/-- The identity of a task. -/
def identity (path : String) (time : Instant) : String := s!"{path}-{time.micros}"

/-- The task of a request made at a time. -/
def of (path : String) (priority : Priority) (kind : TaskKind) (time : Instant) : Task :=
  ⟨identity path time, path, priority, kind, time⟩

/-- Whether a task's identity is the one its path and time give. -/
def identityHolds (t : Task) : Bool := t.id == identity t.path t.enqueuedAt

/-- The names of a task's fields in their order. -/
def fieldNames : List String := ["id", "filePath", "priority", "kind", "enqueuedAt"]

/-- A task as JSON. -/
def toJson (t : Task) : Json :=
  Json.record
    [("id", Json.ofText t.id), ("filePath", Json.ofText t.path), ("priority", t.priority.toJson),
     ("kind", t.kind.toJson), ("enqueuedAt", t.enqueuedAt.toJson)]

/-- The task a value stands for. -/
def ofJson? (j : Json) : Option Task := do
  let fields ← Json.record? fieldNames j
  let id ← Json.field? fields "id" Json.text?
  let path ← Json.field? fields "filePath" Json.text?
  let priority ← Json.field? fields "priority" Priority.ofJson?
  let kind ← Json.field? fields "kind" TaskKind.ofJson?
  let time ← Json.field? fields "enqueuedAt" Instant.ofJson?
  pure ⟨id, path, priority, kind, time⟩

end Task

end CodeInsight
