import CodeInsight.Analysis.Pipeline
import CodeInsight.Insight.Encoding

/-!
# Limits, signals and candidates as JSON

* limits may be left out, from a record as well as from the end of an array;
* a confidence is written with the fewest digits that read back as it.
-/

namespace CodeInsight

open Json (ofText ofNat)

/-- The limits a value gives, the usual ones where it gives none. -/
def Thresholds.ofJson? (j : Json) : Option Thresholds :=
  match Json.fieldsOf? names 0 j with
  | none => none
  | some fields =>
    match names.mapM fun name => ((fields name).mapM Json.nat64?).map fun n => (name, n) with
    | none => none
    | some given => some (ofGiven fun name => (given.lookup name).join)

/-- The limits as JSON. -/
def Thresholds.toJson (t : Thresholds) : Json :=
  Json.record (t.entries.map fun e => (e.1, ofNat e.2))

/-- A number of 32 bits as JSON: null if it is beyond all others. -/
def Signed.toJson (x : Signed) : Json :=
  match x.literal? with
  | some literal => .number literal
  | none => .null

/-- The number of 32 bits nearest to a JSON number. -/
def Signed.ofJson? : Json → Option Signed
  | .number literal => Literal.readSingle? literal
  | _ => none

/-- An intent as JSON. -/
def Intent.toJson (i : Intent) : Json := ofText i.name

/-- The intent a value names. -/
def Intent.ofJson? (j : Json) : Option Intent := Json.choice? name all j

/-- A signal as JSON. -/
def Signal.toJson (s : Signal) : Json :=
  Json.record [("intent", s.intent.toJson), ("confidence", s.confidence.toJson)]

end CodeInsight
