import CodeInsight.Source.Declaration
import CodeInsight.Text.Lines

/-!
# What a source file imports

* a pattern per language whose kept parts name the modules (`imports`);
* Go may list several in one pair of parentheses, one quoted path a line (`quotedPaths`).
-/

namespace CodeInsight.Source

open CodeInsight.Text Pattern

/-- An import of a script, from its keyword to the quoted module. -/
def scriptImport : Pattern :=
  Pattern.text "import" ++ gap ++ run (fun c => c != ';') false ++ Pattern.text "from" ++ gap ++
    oneOf "'\"" ++
    kept "module" (one (fun c => c != '\n') ++ run (fun c => c != '\n') false) ++ oneOf "'\""

/-- An import of Python in either form. -/
def pythonImport : Pattern :=
  indent ++
    alt
      (Pattern.text "from" ++ gap ++ kept "module" (many1 fun c => !isBlank c) ++ gap ++
        Pattern.text "import" ++ gap ++ many1 fun c => c != '\n')
      (Pattern.text "import" ++ gap ++ kept "module" (many1 fun c => !isBlank c))

/-- A use declaration of Rust. -/
def rustUse : Pattern :=
  indent ++ modifier "pub" ++ Pattern.text "use" ++ gap ++
    kept "module" (many1 fun c => c != ';') ++ Pattern.text ";"

/-- An import of Go: a list in parentheses or one quoted path, maybe renamed. -/
def goImport : Pattern :=
  Pattern.text "import" ++ gap ++
    alt (Pattern.text "(" ++ kept "list" (many1 fun c => c != ')') ++ Pattern.text ")")
      (optional (word ++ gap) ++ Pattern.text "\"" ++
        kept "module" (many1 fun c => c != '"') ++ Pattern.text "\"")

/-- The first quoted path of each line, empty ones left out. -/
def quotedPaths (block : List Char) : List (List Char) :=
  ((lines block).filterMap fun l => (pieces '"' l)[1]?).filter fun p => !p.isEmpty

/-- The modules that one match of a language's import pattern names. -/
def importedBy (language : Language) (m : Match) : List (List Char) :=
  match language, m.part? "list", m.part? "module" with
  | .go, some block, _ => quotedPaths block
  | .rust, _, some path => [trim path]
  | _, _, some path => [path]
  | _, _, none => []

/-- The pattern of a language's imports. -/
def importPattern : Language → Pattern
  | .typeScript => scriptImport
  | .python => pythonImport
  | .rust => rustUse
  | .go => goImport

/-- The modules a file of the language imports, in the order in which it names them. -/
def imports (language : Language) (content : List Char) : List String :=
  (((importPattern language).findAll content).flatMap (importedBy language)).map String.ofList

end CodeInsight.Source
