import CodeInsight.Files.Resolve
import CodeInsight.Log
import CodeInsight.Source.Language

/-!
# Collecting source files

* paths stand for the source files they lead to: a directory for those that a walk below it comes
  to, any other for itself if its language is known (`Sources.collectBy`);
* how directories are walked is left to a `Walker`: what it comes to may be in any order, and there
  may be faults among it, which are logged;
* the files are named by their paths without links and detours, each once, in ascending order: in
  what order and how often they were given does not show.
-/

namespace CodeInsight

/-- A path that leads nowhere. -/
structure AccessFault where
  path : String
  cause : FileFault
  deriving DecidableEq, Repr

namespace AccessFault

/-- What could not be done. -/
def headline (f : AccessFault) : String := s!"Cannot access {f.path}"

/-- What could not be done, and why. -/
def message (f : AccessFault) : String := s!"{f.headline}: {f.cause.message}"

end AccessFault

/-- What a walk below a directory comes to. -/
inductive WalkEntry where
  | file (place : Place)
  | other (place : Place)
  | fault (message : String)
  deriving DecidableEq, Repr

namespace WalkEntry

/-- The place of a file. -/
def file? : WalkEntry → Option Place
  | file place => some place
  | _ => none

/-- The text of a fault. -/
def fault? : WalkEntry → Option String
  | fault message => some message
  | _ => none

end WalkEntry

/-- What walks directories of a file tree. Walks are numbered, since one that is made again may come
    to things in another order. -/
abbrev Walker := Nat → FileTree → Place → List WalkEntry

namespace Sources

variable (walker : Walker)

/-! ## 1. Below a directory -/

/-- What is logged of a fault on a walk. -/
def walkLine (directory : Place) (message : String) : LogLine :=
  ⟨.warn, s!"Error walking {FileTree.pathOf directory}: {message}"⟩

/-- The paths of the source files that a walk below a directory comes to, and what is logged of
    it. -/
def below (n : Nat) (t : FileTree) (directory : Place) : List String × List LogLine :=
  let entries := walker n t directory
  (((entries.filterMap WalkEntry.file?).map FileTree.pathOf).filter Language.isSupported,
    (entries.filterMap WalkEntry.fault?).map (walkLine directory))

/-! ## 2. Given paths -/

/-- What is logged of a file whose language is not known. -/
def skippedLine (path : String) : LogLine := ⟨.warn, s!"Skipping unsupported file {path}"⟩

/-- The source files that what is at a place stands for. -/
def ofNode (n : Nat) (t : FileTree) (place : Place) : FileNode → List String × List LogLine
  | .directory => below walker n t place
  | _ =>
    let path := FileTree.pathOf place
    if Language.isSupported path then ([path], []) else ([], [skippedLine path])

/-- The source files that each of several paths stands for, one after the other. -/
def ofPaths (t : FileTree) (here : Place) :
    Nat → List String → Except AccessFault (List String) × List LogLine
  | _, [] => (.ok [], [])
  | n, path :: paths =>
    match t.find here path with
    | .error cause => (.error ⟨path, cause⟩, [])
    | .ok (place, node) =>
      let (files, logs) := ofNode walker n t place node
      let (more, logs') := ofPaths t here (n + 1) paths
      (more.map (files ++ ·), logs ++ logs')

/-- Puts a path into a list in ascending order, in which it is then once. -/
def insert (path : String) : List String → List String
  | [] => [path]
  | p :: ps =>
    if path < p then path :: p :: ps
    else if p < path then p :: insert path ps
    else p :: ps

/-- Paths in ascending order, each once. -/
def ascending (paths : List String) : List String := paths.foldr insert []

/-- **The source files that paths stand for**, and what is logged of those that stand for none. -/
def collectBy (t : FileTree) (here : Place) (paths : List String) :
    Except AccessFault (List String) × List LogLine :=
  let (files, logs) := ofPaths walker t here 0 paths
  (files.map ascending, logs)

end Sources

end CodeInsight
