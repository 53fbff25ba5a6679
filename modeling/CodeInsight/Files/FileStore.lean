import CodeInsight.Files.Access

/-!
# Reading source files

* a `FileStore` reads files of a tree, relative ones below a root if it has one;
* what is no file, or longer than the store allows, is refused before it is read.
-/

namespace CodeInsight

/-- A reader of source files: the root of relative paths, and the greatest size in bytes. -/
structure FileStore where
  root : Option String
  maxSize : Nat
  deriving DecidableEq, Repr

namespace FileStore

/-- The path that the store reads for a path. -/
def resolve (s : FileStore) (path : String) : String :=
  match s.root with
  | some root => Path.join root path
  | none => path

/-- The text of a file. -/
def read (s : FileStore) (t : FileTree) (here : Place) (path : String) :
    Except FileFault String :=
  let full := s.resolve path
  match t.find here full with
  | .error cause => .error cause
  | .ok (_, .file content) =>
    if s.maxSize < content.length then .error (.tooLarge full content.length s.maxSize)
    else FileTree.decode content
  | .ok _ => .error (.notRegular full)

end FileStore

end CodeInsight
