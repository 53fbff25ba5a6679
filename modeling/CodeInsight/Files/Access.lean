import CodeInsight.Files.Resolve

/-!
# Reading and changing file trees

* a file is read as bytes, and as a text if they are one (`readText`);
* a file is written as a whole, a directory made alone or with those above it;
* what fails changes nothing.
-/

namespace CodeInsight.FileTree

/-! ## 1. Reading -/

/-- The text that bytes are in UTF-8. -/
def decode (content : List UInt8) : Except FileFault String :=
  match String.fromUTF8? ⟨content.toArray⟩ with
  | some s => .ok s
  | none => .error .notText

/-- The bytes of a text in UTF-8. -/
def encode (s : String) : List UInt8 := s.toUTF8.toList

/-- The bytes of a file. -/
def readBytes (t : FileTree) (here : Place) (path : String) : Except FileFault (List UInt8) :=
  match t.find here path with
  | .ok (_, .file content) => .ok content
  | .ok _ => .error .isDirectory
  | .error cause => .error cause

/-- The text of a file. -/
def readText (t : FileTree) (here : Place) (path : String) : Except FileFault String :=
  (t.readBytes here path).bind decode

/-! ## 2. Changing -/

/-- The tree with a file of the content, new or instead of the old content. -/
def write (t : FileTree) (here : Place) (path : String) (content : List UInt8) :
    Except FileFault FileTree :=
  match t.resolve true here path with
  | .found place (.file _) => .ok (t.put place (.file content))
  | .found _ _ => .error .isDirectory
  | .absent directory name =>
    if endsInSlash path then .error .isDirectory
    else .ok (t.put (directory ++ [name]) (.file content))
  | .link _ _ _ => .error .linkLoop
  | .fault cause => .error cause

/-- The tree with a new directory. -/
def makeDirectory (t : FileTree) (here : Place) (path : String) : Except FileFault FileTree :=
  match t.resolve false here path with
  | .absent directory name => .ok (t.put (directory ++ [name]) .directory)
  | .found _ _ => .error .alreadyThere
  | .link _ _ _ => .error .linkLoop
  | .fault cause => .error cause

/-- A path and those of the directories above it, the nearest first. -/
def ancestors : Nat → String → List String
  | 0, path => [path]
  | n + 1, path =>
    match Path.parent? path with
    | none => [path]
    | some above => path :: ancestors n above

/-- Makes the directories of a list one after the other, each unless it is there. -/
def makeEach (here : Place) : FileTree → List String → Except FileFault FileTree × FileTree
  | t, [] => (.ok t, t)
  | t, path :: rest =>
    match t.makeDirectory here path with
    | .ok t' => makeEach here t' rest
    | .error cause =>
      if t.reachesDirectory here path then makeEach here t rest else (.error cause, t)

/-- The first of several paths, counted from the innermost, at which a directory can be made or is:
    the paths below it are still to be made. -/
def stillToMake (t : FileTree) (here : Place) : List String → List String → List String
  | below, [] => below
  | below, path :: above =>
    if path.isEmpty then below
    else match t.makeDirectory here path with
      | .error .missing => stillToMake t here (path :: below) above
      | _ => path :: below

/-- Makes a directory and those above it that are missing; the outcome, and the tree as it then is,
    which may hold some of the directories even if not all could be made. -/
def makeDirectories (t : FileTree) (here : Place) (path : String) :
    Except FileFault Unit × FileTree :=
  let (outcome, t') := makeEach here t (stillToMake t here [] (ancestors path.length path))
  (outcome.map fun _ => (), t')

end CodeInsight.FileTree
