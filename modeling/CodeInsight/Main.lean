import CodeInsight.Command.Run
import Std.Time.DateTime.Timestamp

/-!
# The program

* reads the part of the file system that a command line is about into a file tree, runs the command
  line on it, prints its lines and writes what has changed;
* nothing is decided here: that is `Workplace.runArguments`.
-/

namespace CodeInsight.Program

/-! ## 1. Reading -/

/-- The names that lead to a path from a place, going up where the path says so. -/
def placeOf (here : Place) (path : String) : Place :=
  (Path.steps path).foldl (fun p step =>
    match step with
    | .root => []
    | .here => p
    | .up => p.dropLast
    | .name s => p ++ [s]) here

/-- Reads what is at a place, and below it if it is to be read with everything. Of a repository's
    own directory only the rules for ignoring are read. -/
partial def readAt (everything : Bool) (t : FileTree) (place : Place) : IO FileTree := do
  let path := place.foldl (fun p name => p / name) (← IO.FS.realPath "/")
  try
    match (← path.symlinkMetadata).type with
    | .file => pure (t.put place (.file (← IO.FS.readBinFile path).toList))
    | .symlink => pure (t.put place (.link (← IO.FS.realPath path).toString))
    | .dir =>
      let t' := if place.isEmpty then t else t.put place .directory
      if place.getLast? == some ".git" then
        let info := place ++ ["info"]
        readAt false (← readAt false t' info) (info ++ ["exclude"])
      else if everything then
        (← path.readDir).foldlM (fun t entry => readAt true t (place ++ [entry.fileName])) t'
      else pure t'
    | .other => pure t
  catch _ => pure t

/-- The places of the rules for ignoring in a directory. -/
def rulesIn (directory : Place) : List Place :=
  [".ignore", ".gitignore", ".git", ".jj"].map fun name => directory ++ [name]

/-- Reads what is at a place with everything below it, and on the way to it the directories and
    their rules for ignoring; where a link leads elsewhere, the same for that place. -/
def readAlong (place : Place) (t : FileTree) : IO FileTree := do
  let along (place : Place) (t : FileTree) : IO FileTree := do
    let above := (List.range place.length).map fun n => place.take n
    let t' ← (above ++ above.flatMap rulesIn).foldlM (readAt false) t
    readAt true t' place
  let t' ← along place t
  try
    let real := (← IO.FS.realPath (FileTree.pathOf place)).toString
    if real == FileTree.pathOf place then pure t' else along (placeOf [] real) t'
  catch _ => pure t'

/-- The paths that a command is about. -/
def pathsOf (home : Option String) : Command → List String
  | .analyze o => o.paths ++ o.config.toList ++ directory o.dataDirectory
  | .insights path given => path :: directory given
  | .clean given => directory given
where
  /-- The data directory. -/
  directory (given : Option String) : List String :=
    match given, DataDirectory.ofHome? home with
    | some path, _ => [path]
    | none, .ok d => [d.root]
    | none, .error _ => []

/-! ## 2. Writing -/

/-- Makes the file system at a place what a tree has there. -/
def writeAt (t : FileTree) (place : Place) : IO Unit := do
  let path := FileTree.pathOf place
  match t.get? place with
  | some (.file content) => IO.FS.writeBinFile path ⟨content.toArray⟩
  | some .directory => IO.FS.createDirAll path
  | some (.link _) => pure ()
  | none => IO.FS.removeFile path

/-- Writes what one tree has otherwise than another, directories before what they hold. -/
def writeChanges (before after : FileTree) : IO Unit := do
  let places := ((before.nodes ++ after.nodes).map (·.1)).eraseDups.filter fun p =>
    before.get? p != after.get? p
  (places.mergeSort fun p q => p.length ≤ q.length).forM (writeAt after)

/-! ## 3. Running -/

/-- The instant of the clock. -/
def clock : IO Instant := do
  let nanos := (← Std.Time.Timestamp.now).toNanosecondsSinceUnixEpoch.val
  pure ((Instant.of? (nanos / 1000000000) (nanos % 1000000000).toNat).getD .epoch)

/-- A number that no other run has got, for the identities. -/
def freshSerial : IO Nat := do
  let bytes ← IO.getRandomBytes 15
  pure (bytes.toList.foldl (fun n b => n * 256 + b.toNat) 0 * 4)

/-- Runs what arguments ask for; the exit code. -/
def run (arguments : List String) : IO UInt32 := do
  let here := placeOf [] (← IO.FS.realPath ".").toString
  let home ← IO.getEnv "HOME"
  let paths := match Command.ofArguments arguments with
    | .ok command => pathsOf home command
    | .error _ => []
  let tree ← paths.foldlM (fun t path => readAlong (placeOf here path) t) {}
  let workplace : Workplace := { tree, here, home, now := ← clock, serial := ← freshSerial }
  let outcome := workplace.runArguments arguments
  writeChanges tree outcome.tree
  outcome.lines.forM IO.println
  outcome.logs.forM fun line => IO.eprintln line.shown
  match outcome.fault with
  | some (.usage _) => if outcome.exitCode != 0 then Workplace.helpLines.forM IO.eprintln
  | some fault => IO.eprintln s!"Error: {fault.headline}"
  | none => pure ()
  pure outcome.exitCode.toUInt32

end CodeInsight.Program

/-- Runs the program. -/
def main (arguments : List String) : IO UInt32 := CodeInsight.Program.run arguments
