import CodeInsight.Files.Access
import CodeInsight.Store.RecordStore

/-!
# The data directory

* everything kept between runs lies in one directory: records in `insights`, the log in `logs`
  (`DataDirectory`);
* the three directories are made if nothing is in their places; what cannot be made is named in the
  cause (`DataDirectory.make`);
* `FileTree.recordsAt` and `FileTree.putRecords` take the directory of records out of a file tree
  and put it back.
-/

namespace CodeInsight

/-- The paths of a data directory. -/
structure DataDirectory where
  root : String
  deriving DecidableEq, Repr

namespace DataDirectory

/-- The path of the directory of records. -/
def insights (d : DataDirectory) : String := Path.join d.root "insights"

/-- The path of the directory of logs. -/
def logs (d : DataDirectory) : String := Path.join d.root "logs"

/-- The path of the log. -/
def logFile (d : DataDirectory) : String := Path.join d.logs "reasoner.log"

/-- The data directory of a user whose home is known. -/
def ofHome? (home : Option String) : Except StoreFault DataDirectory :=
  match home with
  | some h => .ok ⟨Path.join h ".reasoner"⟩
  | none => .error .noSystemDirectory

/-- Makes each directory of a list in which nothing is yet; the outcome and the tree. -/
def ensure (here : Place) : List String → FileTree → Except StoreFault Unit × FileTree
  | [], t => (.ok (), t)
  | path :: rest, t =>
    if t.reaches here path then ensure here rest t
    else
      match t.makeDirectories here path with
      | (.ok _, t') => ensure here rest t'
      | (.error _, t') => (.error (.directoryNotMade path), t')

/-- Makes a data directory; the outcome and the tree, in which part of it may be made even if not
    all could be. -/
def make (d : DataDirectory) (here : Place) (t : FileTree) : Except StoreFault Unit × FileTree :=
  ensure here [d.root, d.insights, d.logs] t

end DataDirectory

namespace FileTree

/-- The entry of a directory of records that a node is; links are none and are left alone. -/
def recordEntry? : FileNode → Option RecordEntry
  | .file content => some (.file content)
  | .directory => some .directory
  | .link _ => none

/-- The directory of records that a path leads to. -/
def recordsAt (t : FileTree) (here : Place) (path : String) : RecordDirectory :=
  match t.find here path with
  | .error .missing => .missing
  | .ok (place, .directory) =>
    .present ((t.names place).foldl (fun es name =>
      match (t.get? (place ++ [name])).bind recordEntry? with
      | some entry => es.set name entry
      | none => es) .empty)
  | _ => .blocked

/-- The tree with the files of a directory of records, in which the path leads to one. -/
def putEntries (t : FileTree) (place : Place) (entries : Table RecordEntry) : FileTree :=
  let kept : FileTree :=
    ⟨t.nodes.filter fun e =>
      match nameIn? place e.1, e.2 with
      | some name, .file _ => entries.contains name
      | _, _ => true⟩
  entries.entries.foldl (fun t e =>
    match e.2 with
    | .file content => t.put (place ++ [e.1]) (.file content)
    | .directory => t.put (place ++ [e.1]) .directory) kept

/-- The tree in which a path leads to a directory of records. -/
def putRecords (t : FileTree) (here : Place) (path : String) (d : RecordDirectory) : FileTree :=
  match d with
  | .present entries =>
    let t' := (t.makeDirectories here path).2
    match t'.find here path with
    | .ok (place, .directory) => t'.putEntries place entries
    | _ => t'
  | _ => t

end FileTree

end CodeInsight
