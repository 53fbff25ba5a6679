import CodeInsight.Files.Fault
import CodeInsight.Files.Tree
import CodeInsight.Path

/-!
# Where a path leads

* a path is walked name by name from the root or from the place where one stands; a link on the
  way is replaced by its target, forty of them at most (`FileTree.resolve`);
* what lies behind a file or behind nothing is nowhere, and the cause says which;
* a name may have 255 bytes, a path 4095; the form of a path without links and detours does not
  depend on how long the path is (`FileTree.canonicalForm?`).
-/

namespace CodeInsight.FileTree

open CodeInsight.Text

/-! ## 1. Steps -/

/-- A step of a walk: to a name, up, or to where one is. -/
inductive WalkStep where
  | name (s : String)
  | up
  | stay
  deriving DecidableEq, Repr

/-- The step that a piece between slashes stands for; an empty piece stands for none. -/
def walkStep? (piece : List Char) : Option WalkStep :=
  if piece.isEmpty then none
  else if piece = ['.'] then some .stay
  else if piece = ['.', '.'] then some .up
  else some (.name (String.ofList piece))

/-- The steps of a path. -/
def walkSteps (path : String) : List WalkStep := (pieces '/' path.toList).filterMap walkStep?

/-- Whether a path ends in a slash, so that it must lead to a directory. -/
def endsInSlash (path : String) : Bool := path.toList.getLast? == some '/'

/-! ## 2. Walks -/

/-- How far a walk without links goes: to something, to a name that is not there in a directory, to
    a link with steps left, or it breaks off. -/
inductive Walk where
  | found (place : Place) (node : FileNode)
  | absent (directory : Place) (name : String)
  | link (directory : Place) (target : String) (rest : List WalkStep)
  | fault (cause : FileFault)
  deriving Repr

/-- The greatest number of bytes of a name. -/
def nameMax : Nat := 255

/-- The greatest number of bytes of a path. -/
def pathMax : Nat := 4095

/-- The greatest number of links on a walk. -/
def linkMax : Nat := 40

/-- A walk from a directory up to the first link. A link at the end is passed only if asked for. -/
def walk (t : FileTree) (follow : Bool) : Place → List WalkStep → Walk
  | here, [] => .found here .directory
  | here, .stay :: rest => walk t follow here rest
  | here, .up :: rest => walk t follow here.dropLast rest
  | here, .name s :: rest =>
    if nameMax < s.utf8ByteSize then .fault .nameTooLong
    else
      let there := here ++ [s]
      match t.get? there with
      | none => if rest.isEmpty then .absent here s else .fault .missing
      | some .directory => walk t follow there rest
      | some (.file content) =>
        if rest.isEmpty then .found there (.file content) else .fault .notDirectory
      | some (.link target) =>
        if rest.isEmpty && !follow then .found there (.link target) else .link here target rest

/-- A walk that passes at most `links` links. -/
def walkLinks (t : FileTree) (follow : Bool) : Nat → Place → List WalkStep → Walk
  | links, here, steps =>
    match walk t follow here steps with
    | .link directory target rest =>
      match links with
      | 0 => .fault .linkLoop
      | links + 1 =>
        if target.isEmpty then .fault .missing
        else
          let beyond := walkSteps target ++ (if endsInSlash target then [.stay] else []) ++ rest
          walkLinks t follow links (if Path.isAbsolute target then [] else directory) beyond
    | outcome => outcome

/-- Where the names of a path lead for one who stands at `here`, however long it is. A slash at the
    end asks for a directory; what is not there may yet become one. -/
def trace (t : FileTree) (follow : Bool) (here : Place) (path : String) : Walk :=
  let outcome := walkLinks t (follow || endsInSlash path) linkMax
    (if Path.isAbsolute path then [] else here) (walkSteps path)
  match outcome with
  | .found _ (.file _) => if endsInSlash path then .fault .notDirectory else outcome
  | _ => outcome

/-- Where a path leads for one who stands at `here`. -/
def resolve (t : FileTree) (follow : Bool) (here : Place) (path : String) : Walk :=
  if path.toList.contains '\x00' then .fault .nulInName
  else if path.isEmpty then .fault .missing
  else if pathMax < path.utf8ByteSize then .fault .nameTooLong
  else t.trace follow here path

/-! ## 3. What is there -/

/-- The place a path leads to, and what is there. -/
def find (t : FileTree) (here : Place) (path : String) : Except FileFault (Place × FileNode) :=
  match t.resolve true here path with
  | .found place node => .ok (place, node)
  | .absent _ _ => .error .missing
  | .link _ _ _ => .error .linkLoop
  | .fault cause => .error cause

/-- Whether a path leads to something. -/
def reaches (t : FileTree) (here : Place) (path : String) : Bool := (t.find here path).isOk

/-- Whether a path leads to a directory. -/
def reachesDirectory (t : FileTree) (here : Place) (path : String) : Bool :=
  match t.find here path with
  | .ok (_, .directory) => true
  | _ => false

/-- The path without links and detours of what the names of a path lead to. -/
def canonicalForm? (t : FileTree) (here : Place) (path : String) : Option String :=
  match t.trace true here path with
  | .found place _ => some (pathOf place)
  | _ => none

/-- The path without links and detours of what a path leads to, if it can be followed. -/
def canonical (t : FileTree) (here : Place) (path : String) : Except FileFault String :=
  (t.find here path).map fun r => pathOf r.1

end CodeInsight.FileTree
