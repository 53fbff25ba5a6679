import CodeInsight.Files.Access
import CodeInsight.Log
import CodeInsight.Store.Fault
import CodeInsight.Store.Record
import CodeInsight.Table

/-!
# The store of records

* a `RecordDirectory` is the directory that holds a record for each file, named by a function of
  the file's path; different files may have one name, and then the record says whose it is;
* saving makes the directory, writes the whole record under another name and then gives it its own
  (`makeRoom`, `writeDraft`, `publish`): a save that breaks off before the last step has changed no
  record;
* loading never gives insights that were saved for another file (`load`).
-/

namespace CodeInsight

/-- What a directory of records holds under a name. -/
inductive RecordEntry where
  | file (content : List UInt8)
  | directory
  deriving DecidableEq, Repr

/-- The directory of records: not there, something else in its place, or there. -/
inductive RecordDirectory where
  | missing
  | blocked
  | present (entries : Table RecordEntry)

namespace RecordDirectory

instance : Inhabited RecordDirectory := ⟨missing⟩

/-- The names of the entries. -/
def names : RecordDirectory → List String
  | present entries => entries.keys
  | _ => []

/-! ## 1. Names -/

/-- The name of the record for a path. -/
def recordName (naming : String → String) (path : String) : String := naming path ++ ".json"

/-- The name under which the record for a path is written first. -/
def draftName (naming : String → String) (path : String) : String := naming path ++ ".tmp"

/-- Whether a name is that of a record. -/
def isRecordName (name : String) : Bool := Path.nameExtension? name == some "json"

/-! ## 2. Saving -/

/-- The directory, made if it is not there. -/
def makeRoom : RecordDirectory → Except FileFault RecordDirectory
  | missing => .ok (present .empty)
  | blocked => .error .alreadyThere
  | present entries => .ok (present entries)

/-- The directory with a file of the content under a name. -/
def withFile (name : String) (content : List UInt8) :
    RecordDirectory → Except FileFault RecordDirectory
  | missing => .error .missing
  | blocked => .error .notDirectory
  | present entries =>
    match entries.get? name with
    | some .directory => .error .isDirectory
    | _ => .ok (present (entries.set name (.file content)))

/-- The directory in which what had one name has another, instead of what had that. -/
def rename (old new : String) : RecordDirectory → Except FileFault RecordDirectory
  | missing => .error .missing
  | blocked => .error .notDirectory
  | present entries =>
    match entries.get? old, entries.get? new with
    | none, _ => .error .missing
    | some (.file _), some .directory => .error .isDirectory
    | some .directory, some (.file _) => .error .notDirectory
    | some entry, _ => .ok (present ((entries.erase old).set new entry))

/-- Writes the content of a record under its first name. -/
def writeDraft (naming : String → String) (path : String) (content : List UInt8)
    (d : RecordDirectory) : Except FileFault RecordDirectory :=
  d.withFile (draftName naming path) content

/-- Gives a written record its own name. -/
def publish (naming : String → String) (path : String) (d : RecordDirectory) :
    Except FileFault RecordDirectory :=
  d.rename (draftName naming path) (recordName naming path)

/-- Saves insights for a path; the outcome, and the directory, which even a save that fails may have
    changed. -/
def save (naming : String → String) (path : String) (insights : List Insight) (time : Instant)
    (d : RecordDirectory) : Except StoreFault Unit × RecordDirectory :=
  match d.makeRoom with
  | .error cause => (.error (.file cause), d)
  | .ok d₁ =>
    match d₁.writeDraft naming path (FileTree.encode (Record.text ⟨path, time, insights⟩)) with
    | .error cause => (.error (.file cause), d₁)
    | .ok d₂ =>
      match d₂.publish naming path with
      | .error cause => (.error (.file cause), d₂)
      | .ok d₃ => (.ok (), d₃)

/-! ## 3. Loading -/

/-- The content of the file under a name, nothing if there is none. -/
def contentAt (name : String) : RecordDirectory → Except FileFault (Option (List UInt8))
  | missing => .ok none
  | blocked => .error .notDirectory
  | present entries =>
    match entries.get? name with
    | none => .ok none
    | some .directory => .error .isDirectory
    | some (.file content) => .ok (some content)

/-- What is logged of a record under the name for a path that says it is of another. -/
def foreignLine (recordPath owner path : String) : LogLine :=
  ⟨.warn, s!"Insight record {recordPath} belongs to {owner}, not {path}"⟩

/-- What a content under the name for a path is worth, and what is logged of it. -/
def interpret (recordPath path : String) (content : List UInt8) :
    Except StoreFault (Option (List Insight)) × List LogLine :=
  match FileTree.decode content with
  | .error cause => (.error (.file cause), [])
  | .ok s =>
    match Record.ofText? s with
    | none => (.error .notInsights, [])
    | some r =>
      if r.path = path then (.ok (some r.insights), [])
      else (.ok none, [foreignLine recordPath r.path path])

/-- The insights saved for a path, if there are any; `directoryPath` is the path of the directory,
    for the log. -/
def load (naming : String → String) (directoryPath path : String) (d : RecordDirectory) :
    Except StoreFault (Option (List Insight)) × List LogLine :=
  match d.contentAt (recordName naming path) with
  | .error cause => (.error (.file cause), [])
  | .ok none => (.ok none, [])
  | .ok (some content) =>
    interpret (Path.join directoryPath (recordName naming path)) path content

/-! ## 4. Clearing -/

/-- Removes the records among the entries of given names, one after the other; their number. A
    directory with the name of a record ends it. -/
def removeRecords : List String → Table RecordEntry → Except FileFault Nat × Table RecordEntry
  | [], entries => (.ok 0, entries)
  | name :: names, entries =>
    if isRecordName name then
      match entries.get? name with
      | some .directory => (.error .isDirectory, entries)
      | _ =>
        let (count, rest) := removeRecords names (entries.erase name)
        (count.map (· + 1), rest)
    else removeRecords names entries

/-- Removes all records; their number. -/
def clear : RecordDirectory → Except StoreFault Nat × RecordDirectory
  | missing => (.ok 0, missing)
  | blocked => (.error (.file .notDirectory), blocked)
  | present entries =>
    let (count, rest) := removeRecords entries.keys entries
    (count.mapError .file, present rest)

end RecordDirectory

end CodeInsight
