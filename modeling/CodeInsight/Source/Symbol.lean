import CodeInsight.Source.Language

/-!
# Symbols and outlines

* a `Symbol` is a declaration found in a source file: what it declares, where, and its text;
* an `Outline` is what is known of a file without understanding it: its symbols in the order of
  their places and the modules it imports;
* functions and classes are the symbols an analysis looks at (`Outline.analyzable`).
-/

namespace CodeInsight

/-- What a symbol declares. -/
inductive SymbolKind where
  | function
  | classType
  | struct
  | interface
  | other
  deriving DecidableEq, Repr

namespace SymbolKind

/-- Every kind. -/
def all : List SymbolKind := [.function, .classType, .struct, .interface, .other]

/-- The name shown and written for a kind. -/
def name : SymbolKind → String
  | .function => "function"
  | .classType => "class"
  | .struct => "struct"
  | .interface => "interface"
  | .other => "other"

/-- Whether an analysis looks at symbols of the kind. -/
def isAnalyzable : SymbolKind → Bool
  | .function | .classType => true
  | _ => false

end SymbolKind

/-- A declaration in a source file. The line counts from 1, the column counts bytes from 0, and
    the signature is the declaration with its body, where that could be delimited. -/
structure Symbol where
  kind : SymbolKind
  name : String
  line : Nat
  column : Nat
  signature : Option String
  isExported : Bool
  deriving DecidableEq, Repr

/-- The text of the declaration, empty if there is none. -/
def Symbol.signatureText (s : Symbol) : String := s.signature.getD ""

/-- What is known of a source file. -/
structure Outline where
  path : String
  language : Option Language
  symbols : List Symbol
  imports : List String
  deriving DecidableEq, Repr

/-- The symbols an analysis looks at, in their order. -/
def Outline.analyzable (o : Outline) : List Symbol :=
  o.symbols.filter fun s => s.kind.isAnalyzable

end CodeInsight
