import CodeInsight.Source.Symbol
import CodeInsight.Text.Pattern
import CodeInsight.Text.Uppercase

/-!
# How declarations are written

* each language has a few patterns, each for one kind of symbol (`declarations`); the part `name`
  of a match is the name declared;
* every pattern starts at a line's start, and except in Go blanks and tabs may stand before the
  declaration;
* whether others can use a symbol is read off its first word or off its name (`isExported`).
-/

namespace CodeInsight.Source

open CodeInsight.Text Pattern

/-! ## 1. Parts that several patterns share -/

/-- The start of a line and what it is indented by. -/
def indent : Pattern := lineStart ++ many fun c => c == ' ' || c == '\t'

/-- A word that may stand before a declaration, with the gap behind it. -/
def modifier (s : String) : Pattern := optional (Pattern.text s ++ gap)

/-- The name declared. -/
def declaredName : Pattern := kept "name" word

/-- From an opening parenthesis to the next closing one. -/
def parenthesised : Pattern :=
  Pattern.text "(" ++ many (fun c => c != ')') ++ Pattern.text ")"

/-! ## 2. The patterns of each language -/

/-- A type behind a colon, up to an equals sign. -/
def typeAnnotation : Pattern := optional (Pattern.text ":" ++ many1 fun c => c != '=')

/-- A function of a script, maybe a generator. -/
def scriptFunction : Pattern :=
  indent ++ modifier "export" ++ modifier "default" ++ modifier "async" ++
    Pattern.text "function" ++ blanks ++ optional (Pattern.text "*") ++ blanks ++ declaredName

/-- A variable of a script that is given an arrow function. -/
def scriptArrow : Pattern :=
  indent ++ modifier "export" ++ anyText ["const", "let", "var"] ++ gap ++ declaredName ++
    blanks ++ typeAnnotation ++ Pattern.text "=" ++ blanks ++ modifier "async" ++
    alt parenthesised word ++ blanks ++ typeAnnotation ++ Pattern.text "=>"

/-- A class of a script. -/
def scriptClass : Pattern :=
  indent ++ modifier "export" ++ modifier "default" ++ modifier "abstract" ++
    Pattern.text "class" ++ gap ++ declaredName

/-- An interface of a script. -/
def scriptInterface : Pattern :=
  indent ++ modifier "export" ++ Pattern.text "interface" ++ gap ++ declaredName

/-- A Python function, up to its parenthesis. -/
def pythonFunction : Pattern :=
  indent ++ modifier "async" ++ Pattern.text "def" ++ gap ++ declaredName ++ blanks ++
    Pattern.text "("

/-- A Python class. -/
def pythonClass : Pattern := indent ++ Pattern.text "class" ++ gap ++ declaredName

/-- Who may use a Rust item, with the gap behind it. -/
def rustVisibility : Pattern :=
  optional (Pattern.text "pub" ++ optional parenthesised ++ gap)

/-- The calling convention of a Rust function. -/
def rustExternal : Pattern :=
  optional (Pattern.text "extern" ++ gap ++ Pattern.text "\"" ++ many (fun c => c != '"') ++
    Pattern.text "\"" ++ gap)

/-- A Rust function. -/
def rustFunction : Pattern :=
  indent ++ rustVisibility ++ modifier "const" ++ modifier "async" ++ modifier "unsafe" ++
    rustExternal ++ Pattern.text "fn" ++ gap ++ declaredName

/-- A Rust structure or enumeration. -/
def rustStruct : Pattern :=
  indent ++ rustVisibility ++ anyText ["struct", "enum"] ++ gap ++ declaredName

/-- A Rust trait. -/
def rustTrait : Pattern := indent ++ rustVisibility ++ Pattern.text "trait" ++ gap ++ declaredName

/-- A Go function or method, up to its parameters. -/
def goFunction : Pattern :=
  lineStart ++ Pattern.text "func" ++ gap ++ optional (parenthesised ++ blanks) ++ declaredName ++
    blanks ++ oneOf "[("

/-- A Go type of the kind given by its keyword. -/
def goType (keyword : String) : Pattern :=
  lineStart ++ Pattern.text "type" ++ gap ++ declaredName ++ gap ++ Pattern.text keyword

/-- The patterns of a language's declarations and the kind of symbol each declares. -/
def declarations : Language → List (Pattern × SymbolKind)
  | .typeScript =>
    [(scriptFunction, .function), (scriptArrow, .function),
     (scriptClass, .classType), (scriptInterface, .interface)]
  | .python => [(pythonFunction, .function), (pythonClass, .classType)]
  | .rust =>
    [(rustFunction, .function), (rustStruct, .struct),
     (rustTrait, .interface)]
  | .go =>
    [(goFunction, .function), (goType "struct", .struct),
     (goType "interface", .interface)]

/-- Whether a declaration can be used from elsewhere: by its first word in a script and in Rust,
    by its name in Python (no leading underscore) and in Go (a capital). -/
def isExported (language : Language) (declaration name : List Char) : Bool :=
  match language with
  | .typeScript => "export".toList.isPrefixOf declaration
  | .python => name.head? != some '_'
  | .rust => "pub".toList.isPrefixOf declaration
  | .go => name.head?.any isUppercase

end CodeInsight.Source
