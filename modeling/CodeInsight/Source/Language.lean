import CodeInsight.Path

/-!
# Source languages

* four languages, told apart by the extension of a file's name alone (`Language.detect`);
* the first test is whether there is an extension, the second whether it is known, and the cause
  of a failure names what was missing (`SourceError`).
-/

namespace CodeInsight

/-- A language whose declarations can be found. -/
inductive Language where
  | typeScript
  | python
  | rust
  | go
  deriving DecidableEq, Repr

/-- Why a source file has no outline. -/
inductive SourceError where
  | missingExtension (path : String)
  | unsupportedLanguage (extension : String)
  | malformed (path reason : String)
  deriving DecidableEq, Repr

/-- The text of a cause. -/
def SourceError.message : SourceError → String
  | .missingExtension path => s!"No file extension: {path}"
  | .unsupportedLanguage extension => s!"Unsupported extension: {extension}"
  | .malformed path reason => s!"Malformed source in {path}: {reason}"

namespace Language

/-- Every language, in the order in which extensions are looked up. -/
def all : List Language := [typeScript, python, rust, go]

/-- The name shown for a language. -/
def name : Language → String
  | typeScript => "typescript"
  | python => "python"
  | rust => "rust"
  | go => "go"

/-- The extensions of a language's files. -/
def extensions : Language → List String
  | typeScript => ["ts", "tsx", "js", "jsx", "mjs", "cjs"]
  | python => ["py"]
  | rust => ["rs"]
  | go => ["go"]

/-- Whether bodies stand between braces; otherwise they are indented. -/
def usesBraces : Language → Bool
  | python => false
  | _ => true

/-- The language an extension belongs to. Case counts. -/
def ofExtension? (extension : String) : Option Language :=
  all.find? fun l => l.extensions.contains extension

/-- The language of a file. -/
def detect (path : String) : Except SourceError Language :=
  match Path.extension? path with
  | none => .error (.missingExtension path)
  | some extension =>
    match ofExtension? extension with
    | none => .error (.unsupportedLanguage extension)
    | some l => .ok l

/-- Whether a file's language is known. -/
def isSupported (path : String) : Bool := (detect path).isOk

/-- **An extension belongs to the language that lists it**: no two languages share one. -/
theorem ofExtension?_eq_some_iff (extension : String) (l : Language) :
    ofExtension? extension = some l ↔ extension ∈ l.extensions := by
  constructor
  · intro h
    have := List.find?_some h
    simpa using this
  · intro h
    cases l <;> simp only [extensions, List.mem_cons, List.not_mem_nil, or_false] at h
    · rcases h with rfl | rfl | rfl | rfl | rfl | rfl <;> decide
    · subst h; decide
    · subst h; decide
    · subst h; decide

end Language

end CodeInsight
