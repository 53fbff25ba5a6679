import CodeInsight.Insight.Encoding
import CodeInsight.Source.Symbol

/-!
# Outlines as JSON

* a symbol and an outline are records of their fields; a symbol's signature may be null or missing;
* the language of an outline is neither written nor read.
-/

namespace CodeInsight

open Json (ofText ofNat field?)

namespace Symbol

/-- The names of a symbol's fields in their order. -/
def fieldNames : List String := ["kind", "name", "line", "column", "signature", "is_exported"]

/-- A symbol as JSON. -/
def toJson (s : Symbol) : Json :=
  Json.record
    [("kind", ofText s.kind.name), ("name", ofText s.name), ("line", ofNat s.line),
     ("column", ofNat s.column),
     ("signature", match s.signature with
      | none => .null
      | some t => ofText t),
     ("is_exported", .bool s.isExported)]

/-- The symbol a value stands for. -/
def ofJson? (j : Json) : Option Symbol := do
  let fields ← Json.record? fieldNames j
  let kind ← field? fields "kind" (Json.choice? SymbolKind.name SymbolKind.all)
  let name ← field? fields "name" Json.text?
  let line ← field? fields "line" Json.nat64?
  let column ← field? fields "column" Json.nat64?
  let signature ← match fields "signature" with
    | none => some none
    | some x => Json.nullable? Json.text? x
  let isExported ← field? fields "is_exported" Json.bool?
  pure ⟨kind, name, line, column, signature, isExported⟩

end Symbol

namespace Outline

/-- The names of an outline's fields in their order. -/
def fieldNames : List String := ["file_path", "symbols", "imports"]

/-- An outline as JSON. -/
def toJson (o : Outline) : Json :=
  Json.record
    [("file_path", ofText o.path), ("symbols", .array (o.symbols.map Symbol.toJson)),
     ("imports", .array (o.imports.map ofText))]

/-- The outline a value stands for. -/
def ofJson? (j : Json) : Option Outline := do
  let fields ← Json.record? fieldNames j
  let path ← field? fields "file_path" Json.text?
  let symbols ← field? fields "symbols" (Json.list? Symbol.ofJson?)
  let imports ← field? fields "imports" (Json.list? Json.text?)
  pure ⟨path, none, symbols, imports⟩

end Outline

end CodeInsight
