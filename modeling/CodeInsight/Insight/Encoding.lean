import CodeInsight.Insight.Insight
import CodeInsight.Json.Decode
import CodeInsight.Time.Reader

/-!
# Insights as JSON

* an insight is a record of its fields in one order (`Insight.fieldNames`); its finding alone is the
  same record without identity and time;
* reading takes the fields in any order, passes over others, and takes an array of all fields too.
-/

namespace CodeInsight

open Json (ofText ofNat field?)

/-- An instant as JSON. -/
def Instant.toJson (t : Instant) : Json := .string t.text

/-- The instant of a JSON string. -/
def Instant.ofJson? (j : Json) : Option Instant := j.text?.bind fun s => Instant.read? s.toList

/-- A severity as JSON. -/
def Severity.toJson (s : Severity) : Json := ofText s.name

/-- The severity a value names. -/
def Severity.ofJson? (j : Json) : Option Severity := Json.choice? name all j

/-- A category as JSON. -/
def Category.toJson (c : Category) : Json := ofText c.name

/-- The category a value names. -/
def Category.ofJson? (j : Json) : Option Category := Json.choice? name all j

namespace Finding

/-- The fields of a finding. -/
def members (f : Finding) : List (String × Json) :=
  [("filePath", ofText f.path), ("line", ofNat f.line), ("column", ofNat f.column),
   ("severity", f.severity.toJson), ("category", f.category.toJson), ("message", ofText f.message)]

/-- A finding as JSON. -/
def toJson (f : Finding) : Json := Json.record f.members

/-- A finding of the fields of a record. -/
def ofFields? (fields : String → Option Json) : Option Finding := do
  let path ← field? fields "filePath" Json.text?
  let line ← field? fields "line" Json.nat64?
  let column ← field? fields "column" Json.nat64?
  let severity ← field? fields "severity" Severity.ofJson?
  let category ← field? fields "category" Category.ofJson?
  let message ← field? fields "message" Json.text?
  pure ⟨path, line, column, severity, category, message⟩

end Finding

namespace Insight

/-- The names of an insight's fields in their order. -/
def fieldNames : List String :=
  ["id", "filePath", "line", "column", "severity", "category", "message", "timestamp"]

/-- An insight as JSON. -/
def toJson (i : Insight) : Json :=
  Json.record (("id", ofText i.id) :: (i.finding.members ++ [("timestamp", i.timestamp.toJson)]))

/-- The insight a value stands for. -/
def ofJson? (j : Json) : Option Insight := do
  let fields ← Json.record? fieldNames j
  let id ← field? fields "id" Json.text?
  let finding ← Finding.ofFields? fields
  let timestamp ← field? fields "timestamp" Instant.ofJson?
  pure ⟨id, finding, timestamp⟩

/-- Insights as a JSON array. -/
def listToJson (is : List Insight) : Json := .array (is.map toJson)

/-- The insights of a JSON array. -/
def listOfJson? (j : Json) : Option (List Insight) := Json.list? ofJson? j

end Insight

end CodeInsight
