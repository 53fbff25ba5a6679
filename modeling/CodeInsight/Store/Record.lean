import CodeInsight.Insight.Encoding
import CodeInsight.Json.Printer
import CodeInsight.Json.Reader

/-!
# Records

* the insights of one file are kept in a record that also says of which file they are and when they
  were saved (`Record.text`);
* a text that is no record, or one with other insights than there can be, is read as nothing.
-/

namespace CodeInsight

/-- The insights saved for a file. -/
structure Record where
  path : String
  savedAt : Instant
  insights : List Insight
  deriving DecidableEq

namespace Record

/-- The names of a record's fields in their order. -/
def fieldNames : List String := ["filePath", "savedAt", "insights"]

/-- A record as JSON. -/
def toJson (r : Record) : Json :=
  Json.record
    [("filePath", Json.ofText r.path), ("savedAt", r.savedAt.toJson),
     ("insights", Insight.listToJson r.insights)]

/-- The record a value stands for. -/
def ofJson? (j : Json) : Option Record := do
  let fields ← Json.record? fieldNames j
  let path ← Json.field? fields "filePath" Json.text?
  let savedAt ← Json.field? fields "savedAt" Instant.ofJson?
  let insights ← Json.field? fields "insights" Insight.listOfJson?
  pure ⟨path, savedAt, insights⟩

/-- The text of a record. -/
def text (r : Record) : String := r.toJson.toPrettyText

/-- The record a text holds. -/
def ofText? (s : String) : Option Record := (Json.ofString? s).bind ofJson?

end Record

end CodeInsight
