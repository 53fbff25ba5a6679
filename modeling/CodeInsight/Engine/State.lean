import CodeInsight.Bus.Registry
import CodeInsight.Config.Settings
import CodeInsight.Engine.Cache
import CodeInsight.Engine.Queue
import CodeInsight.Engine.Worker
import CodeInsight.Store.InsightStore

/-!
# The state of the engine

* an `Engine` is everything its callers and workers share, and how far each of them is: the queue,
  the cache with its epoch, the workers, calls that wait, jobs, and what happened so far;
* the *epoch* counts how often the cache was cleared; a result is kept only in the epoch in which
  its task was taken (`Engine.cacheIfCurrent`);
* `Engine.status` is what a caller sees at one moment.
-/

namespace CodeInsight

/-! ## 1. What happens -/

/-- A proposal to refactor a symbol. -/
structure Proposal where
  path : String
  candidate : Analysis.Candidate
  deriving DecidableEq

/-- The line in which a proposal is told. -/
def Proposal.line (p : Proposal) : LogLine :=
  let s := p.candidate.symbol
  ⟨.info, s!"Refactoring proposed for {s.kind.name} '{s.name}' in {p.path}:{s.line} " ++
    s!"(complexity {p.candidate.complexity})"⟩

/-- Something that happened in the engine. -/
inductive Happening where
  | requested (task : Task)
  | replaced (task : Task)
  | dropped (tasks : List Task)
  | taken (worker : Nat) (task : Task)
  | cached (path : String) (insights : List Insight)
  | saved (path : String) (insights : List Insight)
  | proposed (p : Proposal)
  | published (event : Event)
  | noticed (n : Notice)
  | logged (line : LogLine)
  deriving DecidableEq

/-! ## 2. Calls that wait -/

/-- How far a call that loads insights is. -/
inductive LoadPhase where
  /-- Has read the epoch and is about to look into the store. -/
  | begun (epoch : Nat)
  /-- Has the store's answer. -/
  | answered (epoch : Nat) (found : Except StoreFault (Option (List Insight)))
  /-- Has returned. -/
  | returned (insights : List Insight)

/-- A call that loads the insights of a path from the store. -/
structure LoadCall where
  path : String
  phase : LoadPhase

/-- How far a call that shuts the engine down is. -/
inductive ShutdownPhase where
  /-- Is about to stop the engine. -/
  | begun
  /-- Is about to take up the workers to wait for. -/
  | stopped
  /-- Waits for workers. -/
  | waiting (workers : List Nat)
  /-- Has returned. -/
  | returned
  deriving DecidableEq

/-! ## 3. The engine -/

/-- What the loop is seen to do. -/
inductive LoopState where
  | idle
  | processing
  deriving DecidableEq, Repr

/-- The name of a state. -/
def LoopState.name : LoopState → String
  | idle => "idle"
  | processing => "processing"

/-- What the loop is seen to do, and with which file. -/
structure LoopStatus where
  state : LoopState := .idle
  currentFile : Option String := none
  deriving DecidableEq, Repr

/-- The engine. Workers, jobs and calls are numbered in the order in which they began. -/
structure Engine where
  settings : Settings
  store : InsightStore
  isAdvised : Bool := false
  bus : EventBus := {}
  queue : TaskQueue := .empty
  cache : InsightCache := Table.empty
  epoch : Nat := 0
  loop : LoopStatus := {}
  workers : List Worker := []
  /-- The worker started last. -/
  latest : Option Nat := none
  /-- The workers that no call waits for yet. -/
  handles : List Nat := []
  /-- Whether a wake-up is kept for the next worker that waits. -/
  wakeKept : Bool := false
  /-- The wake-ups that callers who have just queued a task still owe. -/
  wakesOwed : Nat := 0
  jobs : List Job := []
  jobCount : Nat := 0
  loads : List LoadCall := []
  shutdowns : List ShutdownPhase := []
  /-- What the clock says. -/
  now : Instant := .epoch
  /-- The number of identities given to insights. -/
  serial : Nat := 0
  /-- What happened, the latest first. -/
  history : List Happening := []

namespace Engine

/-! ## 4. Looking -/

/-- Whether the engine is running: the worker started last is not to stop. -/
def isRunning (e : Engine) : Bool :=
  match e.latest.bind (e.workers[·]?) with
  | some w => !w.cancelled
  | none => false

/-- What a caller sees of the engine. -/
structure Status where
  queueLength : Nat
  isRunning : Bool
  cachedFiles : Nat
  state : LoopState
  currentFile : Option String
  deriving DecidableEq, Repr

/-- What a caller sees of the engine at this moment. -/
def status (e : Engine) : Status :=
  ⟨e.queue.length, e.isRunning, e.cache.size, e.loop.state, e.loop.currentFile⟩

/-- Whether the engine has nothing to do: no task waits, and the loop is idle. -/
def isQuiet (e : Engine) : Bool := e.queue.isEmpty && e.loop.state == .idle

/-- The insights that the cache has for a path. -/
def insights (e : Engine) (path : String) : List Insight := e.cache.insights path

/-- Whether a worker is in the slot. -/
def slotTaken (e : Engine) : Bool := e.workers.any (·.inSlot)

/-! ## 5. Small changes -/

/-- The engine in which one more thing has happened. -/
def record (e : Engine) (h : Happening) : Engine := { e with history := h :: e.history }

/-- The engine in which lines were logged. -/
def log (e : Engine) (lines : List LogLine) : Engine :=
  lines.foldl (fun e l => e.record (.logged l)) e

/-- The engine with a worker in another phase. -/
def move (e : Engine) (i : Nat) (phase : Phase) : Engine :=
  { e with workers := e.workers.modify i fun w => { w with phase := phase } }

/-- The engine whose loop is seen idle. -/
def seenIdle (e : Engine) : Engine := { e with loop := {} }

/-- Publishes an event: handlers are called, what they do is recorded, and the event goes out. -/
def publish (e : Engine) (event : Event) : Engine :=
  let (notices, bus) := (e.bus.publish event).takeNotices
  let e' := notices.foldl (fun e n => e.record (.noticed n)) { e with bus := bus }
  e'.record (.published event)

/-- Puts the insights of a path into the cache, unless it was cleared after the epoch was read;
    whether they were put there. -/
def cacheIfCurrent (e : Engine) (epoch : Nat) (path : String) (insights : List Insight) :
    Bool × Engine :=
  if e.epoch = epoch then
    (true, { e with cache := e.cache.set path insights }.record (.cached path insights))
  else (false, e)

/-- Wakes the first worker that is asleep, or keeps the wake-up for the next one that waits. -/
def wakeOne (e : Engine) : Engine :=
  match e.workers.findIdx? fun w => w.phase.isAsleep with
  | some i => e.move i (.parked true)
  | none => { e with wakeKept := true }

/-- What happened since it was last asked for, in its order, and the engine without it. -/
def takeHistory (e : Engine) : List Happening × Engine :=
  (e.history.reverse, { e with history := [] })

end Engine

end CodeInsight
