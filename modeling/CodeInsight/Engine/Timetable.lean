import CodeInsight.Engine.Step

/-!
# The engine in time

* a `World` says what the engine finds outside: contents of files, how long reading takes, and
  faults;
* a `Timetable` is an engine with a clock and the times at which the waits of its workers end; it
  takes every step of a worker that is due, and only when there is none moves the clock
  (`Timetable.advance`), so its runs are among those of `Engine.Reaches` (`reaches_advance`);
* reading waits as long as the world says, everything else that is work takes no time.
-/

namespace CodeInsight

/-! ## 1. Worlds and timetables -/

/-- What the engine finds outside. Times are in milliseconds. -/
structure World where
  read : String → Except FileFault String
  parse : String → String → JobOutcome := JobOutcome.ofSource
  delay : String → Nat := fun _ => 0
  /-- Whether the reading of a file waits for a permit. -/
  isGated : String → Bool := fun _ => false
  saveFault : Option StoreFault := none
  loadFault : Option StoreFault := none

/-- When the present wait of a worker ends, and when the analysis has taken too long. -/
structure Alarm where
  wait : Nat
  limit : Option Nat
  deriving DecidableEq, Repr

/-- An engine in time: its clock, the alarms of its workers, and the permits to read. -/
structure Timetable where
  engine : Engine
  clock : Nat := 0
  alarms : List (Nat × Alarm) := []
  permits : Nat := 0

namespace Timetable

/-! ## 2. What is due -/

/-- Whether the wait of a worker is over. -/
def waited (t : Timetable) (i : Nat) : Bool :=
  match t.alarms.lookup i with
  | some a => a.wait ≤ t.clock
  | none => true

/-- Whether the analysis of a worker has taken too long. -/
def isOutOfTime (t : Timetable) (i : Nat) : Bool :=
  match (t.alarms.lookup i).bind (·.limit) with
  | some limit => limit ≤ t.clock
  | none => false

/-- How the reading of a file ends. -/
def readOutcome (w : World) (path : String) : ReadOutcome :=
  match w.read path with
  | .ok text => .content text
  | .error cause => .fault cause

/-- How the saving of insights goes. -/
def saveOutcome (w : World) : SaveOutcome :=
  match w.saveFault with
  | some cause => .fault cause
  | none => .tried

/-- Whether a file may be read now. -/
def mayRead (w : World) (t : Timetable) (path : String) : Bool :=
  !w.isGated path || decide (0 < t.permits)

/-- The step that a worker can take now, if there is one. -/
def stepOf? (w : World) (t : Timetable) (i : Nat) (worker : Worker) : Option WorkerStep :=
  match worker.phase with
  | .queueing => if t.engine.slotTaken then none else some .enterSlot
  | .checking => some .look
  | .taking => some .take
  | .parking =>
    if worker.cancelled then some .heedStop
    else if t.engine.wakeKept then some .wake
    else some .park
  | .parked notified =>
    if worker.cancelled then some .heedStop
    else if notified then some .wake
    else if t.waited i then some .idleOver
    else none
  | .reading a =>
    if t.waited i && t.mayRead w a.path then some (.endReading (readOutcome w a.path))
    else if t.isOutOfTime i then some .runOutOfTime
    else none
  | .analysing _ _ => if t.isOutOfTime i then some .runOutOfTime else none
  | .announcing _ _ (_ :: _) => some .announce
  | .announcing _ _ [] => some .cache
  | .advising _ _ _ => some (.advise none)
  | .closing _ _ _ => some .close
  | .saving _ _ => some (.save (saveOutcome w))
  | .refusing _ _ => some .refuse
  | .reporting _ _ => some .report
  | .finishing => some .finish
  | .resting =>
    if worker.cancelled then some .heedStop
    else if t.waited i then some .restOver
    else none
  | .leaving => some .leave
  | .exited | .broken => none

/-- The next action that is due: a step of a worker, else the end of a job. -/
def due? (w : World) (t : Timetable) : Option Action :=
  match t.engine.workers.zipIdx.findSome? fun p =>
      (stepOf? w t p.2 p.1).map fun s => Action.worker p.2 s with
  | some action => some action
  | none => t.engine.jobs.head?.map fun job => .endJob job.id (w.parse job.path job.content)

/-! ## 3. Moving on -/

/-- The alarm of a worker that has just begun to wait. -/
def alarmOf? (w : World) (t : Timetable) (phase : Phase) : Option Alarm :=
  let settings := t.engine.settings
  match phase with
  | .parked false => some ⟨t.clock + settings.idleInterval, none⟩
  | .resting => some ⟨t.clock + settings.throttleInterval, none⟩
  | .reading a =>
    some ⟨t.clock + w.delay a.path, settings.analysisTimeout.map (t.clock + ·)⟩
  | _ => none

/-- Sets the alarm of a worker that has just taken a step. -/
def setAlarm (w : World) (t : Timetable) (i : Nat) : Timetable :=
  match (t.engine.workers[i]?).bind fun worker => t.alarmOf? w worker.phase with
  | some alarm => { t with alarms := (i, alarm) :: t.alarms.filter fun a => a.1 != i }
  | none => t

/-- Takes the permit that a reading needs. -/
def usePermit (w : World) (t : Timetable) : Action → Timetable
  | .worker i (.endReading _) =>
    match t.engine.workers[i]?.bind fun worker => worker.phase.assignment? with
    | some a => if w.isGated a.path then { t with permits := t.permits - 1 } else t
    | none => t
  | _ => t

/-- Takes an action that is due. -/
def perform (w : World) (t : Timetable) (action : Action) : Timetable :=
  match t.engine.step? action with
  | none => t
  | some e =>
    let t' := { t.usePermit w action with engine := e }
    match action with
    | .worker i _ => t'.setAlarm w i
    | _ => t'

/-- The times that the wait of a worker may still end at. -/
def timesOf (t : Timetable) (i : Nat) (worker : Worker) : List Nat :=
  match t.alarms.lookup i, worker.phase with
  | some a, .parked _ | some a, .resting => [a.wait]
  | some a, .reading _ => a.wait :: a.limit.toList
  | _, _ => []

/-- The next time at which something may be due. -/
def nextTime? (t : Timetable) : Option Nat :=
  ((t.engine.workers.zipIdx.flatMap fun p => t.timesOf p.2 p.1).filter (t.clock < ·)).min?

/-- Takes all steps that are due until `goal` tells to stop or the time `until?` has come, moving
    the clock when there is none; a step due at that very time is left. -/
def advance (w : World) (goal : Engine → Bool) (until? : Option Nat) : Nat → Timetable → Timetable
  | 0, t => t
  | fuel + 1, t =>
    if goal t.engine then t
    else
      match t.due? w with
      | some action => advance w goal until? fuel (t.perform w action)
      | none =>
        match t.nextTime?, until? with
        | some time, some last =>
          if time < last then advance w goal until? fuel { t with clock := time }
          else { t with clock := last }
        | some time, none => advance w goal until? fuel { t with clock := time }
        | none, some last => { t with clock := last }
        | none, none => t

@[simp] theorem engine_usePermit (w : World) (t : Timetable) (action : Action) :
    (t.usePermit w action).engine = t.engine := by
  unfold usePermit
  split
  · split
    · split <;> rfl
    · rfl
  · rfl

@[simp] theorem engine_setAlarm (w : World) (t : Timetable) (i : Nat) :
    (t.setAlarm w i).engine = t.engine := by
  unfold setAlarm
  split <;> rfl

/-- An action that is performed is a step of the engine, or nothing. -/
theorem reaches_perform (w : World) (t : Timetable) (action : Action) :
    t.engine.Reaches (t.perform w action).engine := by
  unfold perform
  split
  · exact .start
  · rename_i e hs
    have reached : t.engine.Reaches e := .step .start hs
    dsimp only
    split
    · simpa using reached
    · exact reached

/-- What time brings about, steps of the engine bring about. -/
theorem reaches_advance (w : World) (goal : Engine → Bool) (until? : Option Nat) (fuel : Nat)
    (t : Timetable) : t.engine.Reaches (advance w goal until? fuel t).engine := by
  induction fuel generalizing t with
  | zero => exact .start
  | succ fuel ih =>
    unfold advance
    split
    · exact .start
    · split
      · exact (t.reaches_perform w _).trans (ih _)
      · split
        · rename_i time last _
          split
          · exact ih { t with clock := time }
          · exact .start
        · rename_i time _
          exact ih { t with clock := time }
        · exact .start
        · exact .start

/-! ## 4. Runs -/

/-- More steps than a run can take in which the clock moves by `span`. -/
def enough (t : Timetable) (span : Nat) : Nat :=
  100 * (t.engine.queue.length + t.engine.workers.length + span + 10)

/-- Lets some time pass. -/
def run (w : World) (span : Nat) (t : Timetable) : Timetable :=
  advance w (fun _ => false) (some (t.clock + span)) (t.enough span) t

/-- Lets everything happen that takes no time. -/
def runNow (w : World) (t : Timetable) : Timetable :=
  advance w (fun _ => false) (some t.clock) (t.enough 0) t

/-- Lets time pass by the millisecond until the engine is quiet; whether it became so. -/
def settle (w : World) : Nat → Timetable → Bool × Timetable
  | 0, t => (false, t)
  | n + 1, t => if t.engine.isQuiet then (true, t) else settle w n (t.run w 1)

/-- Stops the engine and lets time pass until its workers have ended. -/
def shutdown (w : World) (t : Timetable) : Timetable :=
  let e := t.engine.shutdownBegins
  let k := t.engine.shutdowns.length
  let go (e : Engine) : Engine := (e.shutdownGoesOn k).getD e
  let waited := advance w (fun e => e.workers.all (·.isOver)) none (t.enough 0)
    { t with engine := go (go e) }
  { waited with engine := go waited.engine }

/-- Queues a task; the task, and the engine. -/
def request (path : String) (priority : Priority) (kind : TaskKind) (t : Timetable) :
    Task × Timetable :=
  let (task, e) := t.engine.request path priority kind
  (task, { t with engine := e.payWake.getD e })

end Timetable

end CodeInsight
