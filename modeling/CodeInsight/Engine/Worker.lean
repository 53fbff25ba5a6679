import CodeInsight.Analysis.Pipeline
import CodeInsight.Engine.Fault
import CodeInsight.Engine.Task
import CodeInsight.Insight.Insight

/-!
# Workers

* a `Worker` takes tasks from the queue one after the other; its `Phase` says how far it is, each
  phase being a stretch of work that nobody else can interrupt or look into;
* only the worker in the slot works: one that was started while another works waits for the slot
  (`Worker.inSlot`);
* a worker whose token is cancelled still finishes the task in its hand.
-/

namespace CodeInsight

/-- A task in the hand of a worker, with the epoch of the cache in which it was taken. -/
structure Assignment where
  task : Task
  epoch : Nat
  deriving DecidableEq

/-- The file a worker has in its hand. -/
abbrev Assignment.path (a : Assignment) : String := a.task.path

/-- What an analysis yielded. -/
structure AnalysisResult where
  insights : List Insight
  candidates : List Analysis.Candidate
  signals : List Signal
  deriving DecidableEq

/-- How far a worker is. -/
inductive Phase where
  /-- Waits for the slot. -/
  | queueing
  /-- Is about to see whether it is to go on. -/
  | checking
  /-- Is about to take the next task. -/
  | taking
  /-- Found no task and is about to wait for one. -/
  | parking
  /-- Waits for a task; a wake-up may have reached it. -/
  | parked (notified : Bool)
  /-- Waits for the content of the file. -/
  | reading (a : Assignment)
  /-- Waits for a job that analyses the content. -/
  | analysing (a : Assignment) (job : Nat)
  /-- Is about to tell of the intents that are left, and then to put the insights into the cache. -/
  | announcing (a : Assignment) (r : AnalysisResult) (left : List Signal)
  /-- Is about to propose the candidates for refactoring. -/
  | advising (a : Assignment) (r : AnalysisResult) (current : Bool)
  /-- Is about to tell that the analysis is complete. -/
  | closing (a : Assignment) (r : AnalysisResult) (current : Bool)
  /-- Waits for the insights to be saved. -/
  | saving (a : Assignment) (insights : List Insight)
  /-- Is about to put down that nothing was found. -/
  | refusing (a : Assignment) (fault : EngineFault)
  /-- Is about to tell that the analysis failed. -/
  | reporting (a : Assignment) (fault : EngineFault)
  /-- Is about to be seen idle. -/
  | finishing
  /-- Waits before it takes the next task. -/
  | resting
  /-- Is about to leave the slot. -/
  | leaving
  /-- Has left. -/
  | exited
  /-- Broke down. -/
  | broken
  deriving DecidableEq

namespace Phase

/-- The task in hand. -/
def assignment? : Phase → Option Assignment
  | reading a | analysing a _ | announcing a _ _ | advising a _ _ | closing a _ _ | saving a _
  | refusing a _ | reporting a _ => some a
  | _ => none

/-- Whether the worker will do nothing more. -/
def isOver : Phase → Bool
  | exited | broken => true
  | _ => false

/-- Whether the worker is in the slot. -/
def inSlot : Phase → Bool
  | queueing | exited | broken => false
  | _ => true

/-- Whether the worker waits for a task and no wake-up has reached it. -/
def isAsleep : Phase → Bool
  | parked false => true
  | _ => false

end Phase

/-- A worker: how far it is, and whether it is to stop. -/
structure Worker where
  phase : Phase := .queueing
  cancelled : Bool := false
  deriving DecidableEq

namespace Worker

/-- Whether the worker is in the slot. -/
def inSlot (w : Worker) : Bool := w.phase.inSlot

/-- Whether the worker will do nothing more. -/
def isOver (w : Worker) : Bool := w.phase.isOver

end Worker

/-- A job that analyses a content; it goes on even if the worker that waits for it gives up. -/
structure Job where
  id : Nat
  path : String
  content : String
  deriving DecidableEq

end CodeInsight
