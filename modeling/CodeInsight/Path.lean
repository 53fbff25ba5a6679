import CodeInsight.Text.Pieces

/-!
# File paths

* a path is a string; its *steps* are what lies between the slashes, less empty steps and the
  dots that stay where they are (`Path.steps`): only a dot at the very front of a relative path
  counts;
* the file name is the last step, if it is a name, and the extension is what follows the file
  name's last dot, if something stands before that dot (`Path.extension?`);
* `Path.join` hangs one path below another, an absolute one replacing it.
-/

namespace CodeInsight.Path

open CodeInsight.Text

/-- A step of a path. -/
inductive Step where
  | root
  | here
  | up
  | name (s : String)
  deriving DecidableEq, Repr

/-- Whether the path begins at the root. -/
def isAbsolute (p : String) : Bool := p.toList.head? == some '/'

/-- A piece between slashes as a step; the empty piece and the dot lead nowhere. -/
def step? (piece : List Char) : Option Step :=
  if piece = [] ∨ piece = ['.'] then none
  else if piece = ['.', '.'] then some .up
  else some (.name (String.ofList piece))

/-- The steps of a path, from its beginning. -/
def steps (p : String) : List Step :=
  let ps := pieces '/' p.toList
  let first : List Step :=
    if isAbsolute p then [.root] else if ps.head? = some ['.'] then [.here] else []
  first ++ ps.filterMap step?

/-- The last step, if it is a name. -/
def fileName? (p : String) : Option String :=
  match (steps p).getLast? with
  | some (.name s) => some s
  | _ => none

/-- What stands before and behind the last dot of a name, if it holds one. -/
def splitLastDot? (s : List Char) : Option (List Char × List Char) :=
  let tail := (s.reverse.takeWhile (· != '.')).reverse
  let head := s.take (s.length - tail.length)
  if head.isEmpty then none else some (head.dropLast, tail)

/-- The extension of a file name: what follows its last dot, unless nothing precedes the dot. -/
def nameExtension? (name : String) : Option String :=
  match splitLastDot? name.toList with
  | some (stem, ext) => if stem.isEmpty then none else some (String.ofList ext)
  | none => none

/-- The extension of the file a path leads to. -/
def extension? (p : String) : Option String := (fileName? p).bind nameExtension?

/-- The pieces without those at the end that lead nowhere. -/
def dropIdleEnd (ps : List (List Char)) : List (List Char) :=
  (ps.reverse.dropWhile fun piece => piece.isEmpty || piece == ['.']).reverse

/-- The path of the directory that holds what a path leads to; the root has none. -/
def parent? (p : String) : Option String :=
  match pieces '/' p.toList with
  | [] => none
  | first :: rest =>
    match (dropIdleEnd rest).reverse with
    | [] => if first.isEmpty then none else some ""
    | _ :: before =>
      match dropIdleEnd before.reverse with
      | [] => some (if first.isEmpty then "/" else String.ofList first)
      | kept => some (String.ofList (joinWith '/' (first :: kept)))

/-- `q` below `p`: an absolute `q` stands for itself, and no second slash is put where `p` has
    one or is empty. -/
def join (p q : String) : String :=
  if isAbsolute q then q
  else match p.toList.getLast? with
    | none => q
    | some c => if c == '/' then p ++ q else p ++ "/" ++ q

end CodeInsight.Path
