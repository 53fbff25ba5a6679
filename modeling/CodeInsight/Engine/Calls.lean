import CodeInsight.Engine.State

/-!
# Calls to the engine

* each function is one stretch of a call that nobody can interrupt, so a call of several stretches
  is several functions: what happens between them is up to everybody else;
* queueing a task takes the place of an older task for the same file and then wakes a worker
  (`Engine.request`, `Engine.payWake`, and both without a break `Engine.takeUp?`); after the end of
  time it only takes the older task out (`Engine.requestBreaksOff`);
* clearing the cache drops the tasks that wait and opens a new epoch (`Engine.clear`);
* starting adds a worker unless one is running, stopping cancels it (`Engine.start`, `Engine.stop`).
-/

namespace CodeInsight.Engine

/-! ## 1. The queue and the cache -/

/-- Queues a task for a path; the task, and the engine, in which a wake-up is owed. -/
def request (e : Engine) (path : String) (priority : Priority) (kind : TaskKind) :
    Task × Engine :=
  let replaced := (e.queue.find? path).toList
  let (task, queue) := e.queue.enqueue e.now path priority kind
  let e' := { e with queue := queue, wakesOwed := e.wakesOwed + 1 }
  (task, (replaced.foldl (fun e t => e.record (.replaced t)) e').record (.requested task))

/-- A request for which there is no time breaks off, and the older task for its path is already
    taken out. -/
def requestBreaksOff (e : Engine) (path : String) : Engine :=
  let (replaced, queue) := e.queue.remove path
  replaced.toList.foldl (fun e t => e.record (.replaced t)) { e with queue := queue }

/-- Pays a wake-up that is owed. -/
def payWake (e : Engine) : Option Engine :=
  match e.wakesOwed with
  | 0 => none
  | n + 1 => some { e with wakesOwed := n }.wakeOne

/-- Takes up a file: a call to queue a task for it that nobody interrupts. It breaks off if there is
    no time for the request. -/
def takeUp? (priority : Priority) (e : Engine) (path : String) : Option Engine :=
  if (e.queue.nextTime? e.now).isSome then (e.request path priority .full).2.payWake else none

/-- Empties the cache and drops the tasks that wait; their number. -/
def clear (e : Engine) : Nat × Engine :=
  let (dropped, queue) := e.queue.clear
  let e' := { e with epoch := e.epoch + 1, cache := Table.empty, queue := queue }
  (dropped, e'.record (.dropped e.queue.tasks))

/-! ## 2. Starting and stopping -/

/-- Whether a worker has ended. -/
def hasEnded (e : Engine) (i : Nat) : Bool :=
  match e.workers[i]? with
  | some w => w.isOver
  | none => true

/-- Starts a worker unless one is running. -/
def start (e : Engine) : Engine :=
  if e.isRunning then e
  else
    let i := e.workers.length
    { e with
      workers := e.workers ++ [{}]
      handles := (e.handles.filter fun h => !e.hasEnded h) ++ [i]
      latest := some i }

/-- Starts a worker where nothing can run one: it is all right only if one is running. -/
def startNowhere (e : Engine) : Except EngineFault Unit :=
  if e.isRunning then .ok () else .error .noRuntime

/-- Tells the running worker to stop. -/
def stop (e : Engine) : Engine :=
  match e.latest with
  | some i => { e with workers := e.workers.modify i fun w => { w with cancelled := true } }
  | none => e

/-! ## 3. Shutting down -/

/-- The engine with a call to shut it down in another phase. -/
def shutdownMoves (e : Engine) (k : Nat) (phase : ShutdownPhase) : Engine :=
  { e with shutdowns := e.shutdowns.set k phase }

/-- A call to shut the engine down begins. -/
def shutdownBegins (e : Engine) : Engine := { e with shutdowns := e.shutdowns ++ [.begun] }

/-- A call to shut the engine down goes on by one stretch: it stops the engine, takes up the workers
    nobody waits for, or returns once they have ended. -/
def shutdownGoesOn (e : Engine) (k : Nat) : Option Engine :=
  match e.shutdowns[k]? with
  | some .begun => some (e.stop.shutdownMoves k .stopped)
  | some .stopped => some ({ e with handles := [] }.shutdownMoves k (.waiting e.handles))
  | some (.waiting workers) =>
    if workers.all e.hasEnded then some (e.shutdownMoves k .returned) else none
  | _ => none

/-! ## 4. Loading -/

/-- The engine with a call that loads in another phase. -/
def loadMoves (e : Engine) (k : Nat) (path : String) (phase : LoadPhase) : Engine :=
  { e with loads := e.loads.set k ⟨path, phase⟩ }

/-- A call that loads the insights of a path begins. -/
def loadBegins (e : Engine) (path : String) : Engine :=
  { e with loads := e.loads ++ [⟨path, .begun e.epoch⟩] }

/-- The store answers a call that loads, or cannot be used because of a fault. -/
def loadAnswered (e : Engine) (k : Nat) (fault : Option StoreFault) : Option Engine :=
  match e.loads[k]? with
  | some ⟨path, .begun epoch⟩ =>
    let (found, lines) := match fault with
      | some f => (.error f, [])
      | none => e.store.load path
    some ((e.log lines).loadMoves k path (.answered epoch found))
  | _ => none

/-- What is logged of insights that could not be loaded. -/
def loadFailedLine (path : String) (cause : StoreFault) : LogLine :=
  ⟨.warn, s!"Failed to load insights for {path}: {cause.message}"⟩

/-- A call that loads returns: what the store has goes into the cache; if it has nothing, the cache
    has the answer. -/
def loadReturns (e : Engine) (k : Nat) : Option Engine :=
  match e.loads[k]? with
  | some ⟨path, .answered epoch found⟩ =>
    match found with
    | .ok (some insights) =>
      some ((e.cacheIfCurrent epoch path insights).2.loadMoves k path (.returned insights))
    | .ok none => some (e.loadMoves k path (.returned (e.insights path)))
    | .error cause =>
      some ((e.log [loadFailedLine path cause]).loadMoves k path (.returned []))
  | _ => none

/-- What a call that loads has returned, if it has. -/
def loaded? (e : Engine) (k : Nat) : Option (List Insight) :=
  match e.loads[k]? with
  | some ⟨_, .returned insights⟩ => some insights
  | _ => none

end CodeInsight.Engine
