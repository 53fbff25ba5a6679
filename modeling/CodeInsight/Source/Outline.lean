import CodeInsight.Source.Extent
import CodeInsight.Source.Import

/-!
# The outline of a source file

* every match of one of the language's patterns is a symbol (`symbolOf`): it is where the
  declaration's first word is, and its signature reaches as far as the declaration does;
* the symbols stand in the order of their places, those at one place in the order of the patterns
  (`symbolsIn`);
* a file of no known language, or one that holds a NUL, has no outline (`Outline.ofSource`).
-/

namespace CodeInsight

namespace Source

open CodeInsight.Text

/-- The place of a declaration's first word: blanks before it are not part of it. -/
def declarationStart (m : Match) : Cursor := m.start.skipWhile isBlank

/-- The text of a declaration from its place on. -/
def extentAt (language : Language) (place : Cursor) : List Char :=
  if language.usesBraces then bracedExtent place.after else indentedExtent place.column place.after

/-- The symbol that a match of a declaration pattern stands for. -/
def symbolOf (language : Language) (kind : SymbolKind) (m : Match) : Symbol :=
  let place := declarationStart m
  let name := (m.part? "name").getD []
  { kind := kind
    name := String.ofList name
    line := place.line
    column := place.column
    signature := some (String.ofList (extentAt language place))
    isExported := isExported language (trimStart m.text) name }

/-- Whether a symbol stands before another, or at its place. -/
def Precedes (a b : Symbol) : Bool :=
  a.line < b.line || (a.line == b.line && a.column ≤ b.column)

/-- The symbols a file of the language declares. -/
def symbolsIn (language : Language) (content : List Char) : List Symbol :=
  ((declarations language).flatMap fun d => (d.1.findAll content).map (symbolOf language d.2))
    |>.mergeSort Precedes

end Source

/-- The outline of a source file, its language told by its path. -/
def Outline.ofSource (path content : String) : Except SourceError Outline :=
  match Language.detect path with
  | .error e => .error e
  | .ok language =>
    let text := content.toList
    if text.contains '\x00' then .error (.malformed path "binary content")
    else .ok
      { path := path
        language := some language
        symbols := Source.symbolsIn language text
        imports := Source.imports language text }

end CodeInsight
