import CodeInsight.Command.Arguments
import CodeInsight.Command.Printing
import CodeInsight.Config.Load
import CodeInsight.Files.FileStore
import CodeInsight.Ignore.Walk
import CodeInsight.Store.DataDirectory
import CodeInsight.Store.Digest

/-!
# Running a command

* a command runs on a file tree (`Workplace`) and leaves one behind, with lines printed, lines
  logged and perhaps a cause for which it broke off (`Outcome`);
* `analyze` reads its settings, collects the files, and makes the data directory only if there is a
  file to analyse; what it prints is what `Printing` says;
* `insights` prints what is saved for a file, `clean` removes what is saved.
-/

namespace CodeInsight

/-! ## 1. Workplaces and outcomes -/

/-- Where a command runs: the file tree, the directory one stands in, the user's home, the time, and
    the number of the first identity that is free. -/
structure Workplace where
  tree : FileTree
  here : Place := []
  home : Option String := none
  now : Instant := .epoch
  serial : Nat := 0

/-- Why a command broke off. Where a file cannot be taken up at any later time, it breaks down. -/
inductive CommandFault where
  | usage (cause : UsageFault)
  | engine (cause : EngineFault)
  | store (cause : StoreFault)
  | access (cause : AccessFault)
  | noLaterTime
  deriving DecidableEq, Repr

namespace CommandFault

/-- The text of a cause, without its own causes. -/
def headline : CommandFault → String
  | usage _ => "invalid usage"
  | engine cause => cause.message
  | store cause => cause.message
  | access cause => cause.headline
  | noLaterTime => "`DateTime + TimeDelta` overflowed"

/-- The exit code for a cause. Help and version are what was asked for. -/
def exitCode : CommandFault → Nat
  | usage .helpAsked => 0
  | usage .versionAsked => 0
  | usage _ => 2
  | noLaterTime => 101
  | _ => 1

end CommandFault

/-- What a command leaves behind. -/
structure Outcome where
  tree : FileTree
  lines : List String := []
  logs : List LogLine := []
  fault : Option CommandFault := none

namespace Outcome

/-- The exit code of a command. -/
def exitCode (o : Outcome) : Nat :=
  match o.fault with
  | some f => f.exitCode
  | none => 0

end Outcome

namespace Workplace

/-! ## 2. The data directory -/

/-- The data directory that was given, or else the user's. -/
def dataDirectory (s : Workplace) (given : Option String) : Except StoreFault DataDirectory :=
  match given with
  | some path => .ok ⟨path⟩
  | none => DataDirectory.ofHome? s.home

/-- Makes the data directory; the tree, in which part of it may be made even if not all could be. -/
def makeDataDirectory (s : Workplace) (given : Option String) :
    Except StoreFault DataDirectory × FileTree :=
  match s.dataDirectory given with
  | .error cause => (.error cause, s.tree)
  | .ok d =>
    let (outcome, tree) := d.make s.here s.tree
    (outcome.map fun _ => d, tree)

/-- The store of insights in a data directory. -/
def storeAt (s : Workplace) (tree : FileTree) (d : DataDirectory) : InsightStore :=
  .records Digest.digest d.insights (tree.recordsAt s.here d.insights)

/-- The tree with what a store holds. -/
def putStore (s : Workplace) (tree : FileTree) : InsightStore → FileTree
  | .memory _ => tree
  | .records _ path d => tree.putRecords s.here path d

/-! ## 3. Analyzing -/

/-- The line in which it is logged that there is nothing to analyse. -/
def nothingLine : LogLine := ⟨.warn, "No supported source files found"⟩

/-- What the engine finds in a tree. -/
def world (s : Workplace) (settings : Settings) : World where
  read path := (FileStore.mk none settings.maxFileSize).read s.tree s.here path

/-- The engine when it has taken up all files and was started; or it breaks off with one of them. -/
def engineFor (s : Workplace) (settings : Settings) (store : InsightStore) (files : List String)
    (priority : Priority) : Option Engine :=
  let e : Engine := { settings, store, isAdvised := true, now := s.now, serial := s.serial }
  (files.foldlM (Engine.takeUp? priority) e).map Engine.start

/-- The analysis of files, when nothing has happened yet. -/
def begin? (s : Workplace) (settings : Settings) (store : InsightStore) (files : List String)
    (priority : Priority) : Option Printing :=
  (s.engineFor settings store files priority).map fun e => .start { engine := e } files

/-- Analyses files and prints what happens. -/
def analyzeFiles (s : Workplace) (settings : Settings) (store : InsightStore) (files : List String)
    (priority : Priority) : Option Printing :=
  (s.begin? settings store files priority).map fun p => p.finish (s.world settings)

/-- The lines that an engine logged, in their order. -/
def linesLogged (e : Engine) : List LogLine :=
  e.history.reverse.filterMap fun
    | .logged l => some l
    | .noticed (.logged l) => some l
    | .proposed p => some p.line
    | _ => none

/-- Analyses files, keeping the insights unless told otherwise. -/
def analyzeCollected (s : Workplace) (o : AnalyzeOptions) (settings : Settings)
    (files : List String) : Outcome :=
  let made : Except StoreFault InsightStore × FileTree :=
    if o.noPersist then (.ok default, s.tree)
    else
      let (d, tree) := s.makeDataDirectory o.dataDirectory
      (d.map (s.storeAt tree), tree)
  match made with
  | (.error cause, tree) => { tree, fault := some (.store cause) }
  | (.ok store, tree) =>
    match s.analyzeFiles settings store files o.priority with
    | none => { tree, fault := some .noLaterTime }
    | some p =>
      let e := p.time.engine
      { tree := s.putStore tree e.store, lines := p.lines, logs := linesLogged e }

/-- Analyses what the options name. -/
def analyzeNamed (s : Workplace) (o : AnalyzeOptions) : Outcome :=
  let settings := match o.config with
    | some path => Settings.ofFile s.tree s.here path
    | none => .ok {}
  match settings with
  | .error cause => { tree := s.tree, fault := some (.engine cause) }
  | .ok settings =>
    match Sources.collect s.tree s.here o.paths with
    | (.error cause, logs) => { tree := s.tree, logs, fault := some (.access cause) }
    | (.ok [], logs) => { tree := s.tree, logs := logs ++ [nothingLine] }
    | (.ok files, logs) =>
      let outcome := s.analyzeCollected o settings files
      { outcome with logs := logs ++ outcome.logs }

/-- The tree with lines added to the log. -/
def addToLog (s : Workplace) (tree : FileTree) (d : DataDirectory) (logs : List LogLine) :
    FileTree :=
  let before := match tree.readBytes s.here d.logFile with
    | .ok content => content
    | .error _ => []
  let added := FileTree.encode (String.join (logs.map fun l => l.shown ++ "\n"))
  match tree.write s.here d.logFile (before ++ added) with
  | .ok tree' => tree'
  | .error _ => tree

/-- Runs `analyze`. A log file is opened before anything else is done. -/
def analyze (s : Workplace) (o : AnalyzeOptions) : Outcome :=
  if o.logToFile then
    match s.makeDataDirectory o.dataDirectory with
    | (.error cause, tree) => { tree, fault := some (.store cause) }
    | (.ok d, tree) =>
      let outcome := { s with tree := s.addToLog tree d [] }.analyzeNamed o
      { outcome with tree := s.addToLog outcome.tree d outcome.logs }
  else s.analyzeNamed o

/-! ## 4. The other commands -/

/-- Runs `insights`: a path that leads somewhere stands for what it leads to. -/
def insights (s : Workplace) (path : String) (directory : Option String) : Outcome :=
  let file := match s.tree.canonical s.here path with
    | .ok full => full
    | .error _ => path
  match s.makeDataDirectory directory with
  | (.error cause, tree) => { tree, fault := some (.store cause) }
  | (.ok d, tree) =>
    match (s.storeAt tree d).load file with
    | (.error cause, logs) => { tree, logs, fault := some (.store cause) }
    | (.ok found, logs) =>
      { tree, logs, lines := [(Insight.listToJson (found.getD [])).toPrettyText] }

/-- Runs `clean`. -/
def clean (s : Workplace) (directory : Option String) : Outcome :=
  match s.makeDataDirectory directory with
  | (.error cause, tree) => { tree, fault := some (.store cause) }
  | (.ok d, tree) =>
    let (removed, store) := (s.storeAt tree d).clear
    let tree' := s.putStore tree store
    match removed with
    | .error cause => { tree := tree', fault := some (.store cause) }
    | .ok _ => { tree := tree' }

/-! ## 5. Commands -/

/-- The line that tells the version. -/
def versionLine : String := "reasoner 0.7.0"

/-- The lines that tell how commands are given. -/
def helpLines : List String :=
  ["Usage: reasoner <COMMAND>", "",
   "Commands:",
   "  analyze [PATHS]...  Analyze files and print every event as a line of JSON",
   "  insights <PATH>     Print the insights saved for a file",
   "  clean               Remove all insights saved",
   "  help                Print this text", "",
   "Options of analyze:",
   "  -p, --priority <PRIORITY>  high, medium or low",
   "  -c, --config <FILE>        Settings in TOML",
   "      --no-persist           Save nothing",
   "      --log-to-file          Log to a file in the data directory",
   "  -v, --verbose              Log more",
   "Option of all commands:",
   "      --data-dir <DIR>       Where insights and logs are kept"]

/-- The outcome of a command line that is no command. -/
def refuse (s : Workplace) (cause : UsageFault) : Outcome :=
  let lines := match cause with
    | .helpAsked => helpLines
    | .versionAsked => [versionLine]
    | _ => []
  { tree := s.tree, lines, fault := some (.usage cause) }

/-- Runs a command. -/
def run (s : Workplace) : Command → Outcome
  | .analyze o => s.analyze o
  | .insights path directory => s.insights path directory
  | .clean directory => s.clean directory

/-- **Runs what arguments ask for.** -/
def runArguments (s : Workplace) (arguments : List String) : Outcome :=
  match Command.ofArguments arguments with
  | .ok c => s.run c
  | .error cause => s.refuse cause

end Workplace

end CodeInsight
