import CodeInsight.Analysis.Encoding
import CodeInsight.Bus.Event

/-!
# Events as JSON

* an event is a record of its kind and of what it tells.
-/

namespace CodeInsight.Event

open Json (ofText field?)

/-- The names of what an event of a kind tells, in their order. -/
def fieldNames : EventKind → List String
  | .completed => ["filePath", "insights", "completedAt"]
  | .failed => ["filePath", "error", "failedAt"]
  | .detected => ["filePath", "intent", "confidence", "detectedAt"]

/-- What an event tells. -/
def payload : Event → List (String × Json)
  | completed path insights time =>
    [("filePath", ofText path), ("insights", Insight.listToJson insights),
     ("completedAt", time.toJson)]
  | failed path error time =>
    [("filePath", ofText path), ("error", ofText error), ("failedAt", time.toJson)]
  | detected path signal time =>
    [("filePath", ofText path), ("intent", signal.intent.toJson),
     ("confidence", signal.confidence.toJson), ("detectedAt", time.toJson)]

/-- An event as JSON. -/
def toJson (e : Event) : Json :=
  Json.record [("type", ofText e.kind.name), ("payload", Json.record e.payload)]

/-- The event of a kind whose payload a value is. -/
def ofPayload? (kind : EventKind) (j : Json) : Option Event := do
  let fields ← Json.record? (fieldNames kind) j
  let path ← field? fields "filePath" Json.text?
  match kind with
  | .completed =>
    let insights ← field? fields "insights" Insight.listOfJson?
    let time ← field? fields "completedAt" Instant.ofJson?
    pure (completed path insights time)
  | .failed =>
    let error ← field? fields "error" Json.text?
    let time ← field? fields "failedAt" Instant.ofJson?
    pure (failed path error time)
  | .detected =>
    let intent ← field? fields "intent" Intent.ofJson?
    let confidence ← field? fields "confidence" Signed.ofJson?
    let time ← field? fields "detectedAt" Instant.ofJson?
    pure (detected path ⟨intent, confidence⟩ time)

/-- The event a value stands for. -/
def ofJson? (j : Json) : Option Event := do
  let fields ← Json.record? ["type", "payload"] j
  let name ← field? fields "type" Json.text?
  let kind ← EventKind.ofName? name
  field? fields "payload" (ofPayload? kind)

end CodeInsight.Event
