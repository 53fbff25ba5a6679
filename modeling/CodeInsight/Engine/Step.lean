import CodeInsight.Engine.Calls
import CodeInsight.Source.Outline

/-!
# The steps of the engine

* `Engine.step?` is one step of one worker, one call or one job; every order in which workers,
  callers and jobs may take turns is a sequence of such steps, and what comes from outside (the
  content of a file, the end of a wait, a fault) is part of the step (`Action`);
* a worker that takes a task reads the file, has it analysed, tells of the intents, puts the
  insights into the cache, proposes candidates, tells that it is complete and saves the insights; or
  it puts down that nothing was found and tells that it failed;
* `Engine.Reaches` is any number of steps.
-/

namespace CodeInsight

/-! ## 1. What comes from outside -/

/-- How the reading of a file ends. -/
inductive ReadOutcome where
  | content (text : String)
  | fault (cause : FileFault)
  | breakdown
  deriving DecidableEq

/-- How the job that makes an outline of a content ends. -/
inductive JobOutcome where
  | outline (o : Outline)
  | unparsable (cause : SourceError)
  | aborted (reason : String)

/-- How the job for a content ends that is read as its path says. -/
def JobOutcome.ofSource (path content : String) : JobOutcome :=
  match Outline.ofSource path content with
  | .ok o => .outline o
  | .error cause => .unparsable cause

/-- How the saving of insights goes: as the store has it, not at all because of a fault, or the
    worker breaks down with it. -/
inductive SaveOutcome where
  | tried
  | fault (cause : StoreFault)
  | breakdown
  deriving DecidableEq

/-- A step of a worker. -/
inductive WorkerStep where
  | enterSlot
  | look
  | take
  | park
  | wake
  | idleOver
  | heedStop
  | endReading (outcome : ReadOutcome)
  | runOutOfTime
  | announce
  | cache
  /-- Proposes the candidates, or breaks down with the one of a number. -/
  | advise (breaksAt : Option Nat)
  | close
  | save (outcome : SaveOutcome)
  | refuse
  | report
  | finish
  | restOver
  | leave

/-- A step of the engine. -/
inductive Action where
  | request (path : String) (priority : Priority) (kind : TaskKind)
  | payWake
  | clear
  | start
  | stop
  | shutdownBegins
  | shutdownGoesOn (call : Nat)
  | loadBegins (path : String)
  | loadAnswered (call : Nat) (fault : Option StoreFault)
  | loadReturns (call : Nat)
  | tick (now : Instant)
  | endJob (job : Nat) (outcome : JobOutcome)
  | worker (i : Nat) (s : WorkerStep)

namespace Engine

/-! ## 2. Steps of a worker -/

/-- The line in which a failure is logged. -/
def failureLine (path : String) (fault : EngineFault) : LogLine :=
  ⟨.error, s!"Analysis failed for {path}: {fault.message}"⟩

/-- The line in which it is logged that insights could not be saved. -/
def notSavedLine (path : String) (cause : StoreFault) : LogLine :=
  ⟨.warn, s!"Failed to persist insights for {path}: {(EngineFault.notStored cause).message}"⟩

/-- A worker takes the next task, and is seen to in the same moment; or it finds none. -/
def take (e : Engine) (i : Nat) : Engine :=
  match e.queue.dequeue with
  | (none, _) => e.move i .parking
  | (some t, queue) =>
    let seen : LoopStatus := ⟨.processing, some t.path⟩
    ({ e with queue := queue, loop := seen }.record (.taken i t)).move i (.reading ⟨t, e.epoch⟩)

/-- An analysis fails. -/
def fail (e : Engine) (i : Nat) (a : Assignment) (fault : EngineFault) : Engine :=
  (e.log [failureLine a.path fault]).move i (.refusing a fault)

/-- The reading of a file ends; a content goes to a new job. -/
def endReading (e : Engine) (i : Nat) (a : Assignment) : ReadOutcome → Engine
  | .content text =>
    let job : Job := ⟨e.jobCount, a.path, text⟩
    { e with jobs := e.jobs ++ [job], jobCount := e.jobCount + 1 }.move i (.analysing a job.id)
  | .fault cause => e.fail i a (.unreadable a.path cause)
  | .breakdown => e.move i .broken

/-- A worker proposes candidates for refactoring. -/
def propose (e : Engine) (path : String) (candidates : List Analysis.Candidate) : Engine :=
  candidates.foldl (fun e c => e.record (.proposed ⟨path, c⟩)) e

/-- A worker proposes the candidates, if anybody wants to know, or breaks down with one of them. -/
def advise (e : Engine) (i : Nat) (a : Assignment) (r : AnalysisResult) (current : Bool)
    (breaksAt : Option Nat) : Engine :=
  if e.isAdvised then
    match breaksAt with
    | some n =>
      if n < r.candidates.length then (e.propose a.path (r.candidates.take n)).move i .broken
      else (e.propose a.path r.candidates).move i (.closing a r current)
    | none => (e.propose a.path r.candidates).move i (.closing a r current)
  else e.move i (.closing a r current)

/-- The insights of a path are saved. -/
def saveInsights (e : Engine) (i : Nat) (path : String) (insights : List Insight) :
    SaveOutcome → Engine
  | .tried =>
    match e.store.save path insights e.now with
    | (.ok _, store) =>
      ({ e with store := store }.record (.saved path insights)).move i .finishing
    | (.error cause, store) =>
      ({ e with store := store }.log [notSavedLine path cause]).move i .finishing
  | .fault cause => (e.log [notSavedLine path cause]).move i .finishing
  | .breakdown => e.move i .broken

/-- A worker stops waiting for a task otherwise than by the wake-up that has reached it: that one is
    passed on. -/
def abandon (e : Engine) (i : Nat) (notified : Bool) (phase : Phase) : Engine :=
  let e' := e.move i phase
  if notified then e'.wakeOne else e'

/-- A worker publishes an event and goes on once the handlers called have come to an end. It never
    goes on if they do not. -/
def tell? (e : Engine) (i : Nat) (event : Event) (phase : Phase) : Option Engine :=
  if e.bus.settles event then some ((e.publish event).move i phase) else none

/-- A step of a worker in a phase, if it can take it. -/
def workerStep? (e : Engine) (i : Nat) (w : Worker) (s : WorkerStep) : Option Engine :=
  match w.phase, s with
  | .queueing, .enterSlot => if e.slotTaken then none else some (e.move i .checking)
  | .checking, .look => some (e.move i (if w.cancelled then .leaving else .taking))
  | .taking, .take => some (e.take i)
  | .parking, .park =>
    if e.wakeKept || w.cancelled then none else some (e.move i (.parked false))
  | .parking, .wake =>
    if e.wakeKept then some ({ e with wakeKept := false }.move i .checking) else none
  | .parking, .idleOver => some (e.move i .checking)
  | .parking, .heedStop => if w.cancelled then some (e.move i .leaving) else none
  | .parked notified, .wake => if notified then some (e.move i .checking) else none
  | .parked notified, .idleOver => some (e.abandon i notified .checking)
  | .parked notified, .heedStop =>
    if w.cancelled then some (e.abandon i notified .leaving) else none
  | .reading a, .endReading outcome => some (e.endReading i a outcome)
  | .reading a, .runOutOfTime =>
    e.settings.analysisTimeout.map fun after => e.fail i a (.timedOut a.path after)
  | .analysing a _, .runOutOfTime =>
    e.settings.analysisTimeout.map fun after => e.fail i a (.timedOut a.path after)
  | .announcing a r (signal :: left), .announce =>
    e.tell? i (.detected a.path signal e.now) (.announcing a r left)
  | .announcing a r [], .cache =>
    let (current, e') := e.cacheIfCurrent a.epoch a.path r.insights
    some (e'.move i (.advising a r current))
  | .advising a r current, .advise breaksAt => some (e.advise i a r current breaksAt)
  | .closing a r current, .close =>
    e.tell? i (.completed a.path r.insights e.now)
      (if current then .saving a r.insights else .finishing)
  | .saving a insights, .save outcome => some (e.saveInsights i a.path insights outcome)
  | .refusing a fault, .refuse =>
    some ((e.cacheIfCurrent a.epoch a.path []).2.move i (.reporting a fault))
  | .reporting a fault, .report =>
    e.tell? i (.failed a.path fault.message e.now) .finishing
  | .finishing, .finish => some (e.seenIdle.move i .resting)
  | .resting, .restOver => some (e.move i .checking)
  | .resting, .heedStop => if w.cancelled then some (e.move i .leaving) else none
  | .leaving, .leave => some (e.seenIdle.move i .exited)
  | _, _ => none

/-! ## 3. Jobs -/

/-- The worker that waits for a job, and what it has in its hand. -/
def waitsFor (job : Nat) (w : Worker) : Option Assignment :=
  match w.phase with
  | .analysing a j => if j = job then some a else none
  | _ => none

/-- The worker that waits for a job, with its number, and what it has in its hand. -/
def waiter? (e : Engine) (job : Nat) : Option (Nat × Assignment) :=
  e.workers.zipIdx.findSome? fun p => (waitsFor job p.1).map fun a => (p.2, a)

/-- What an analysis of a content yields, its insights marked; and the engine, in which identities
    were used. -/
def analyse (e : Engine) (job : Job) (o : Outline) : AnalysisResult × Engine :=
  let report := Analysis.run e.settings.thresholds job.path job.content o
  let insights := Stamp.mark ⟨e.serial, e.now⟩ report.findings
  (⟨insights, report.candidates, report.signals⟩,
    { e with serial := e.serial + insights.length })

/-- A job ends; a worker that still waits for it goes on. -/
def endJob (e : Engine) (job : Job) (outcome : JobOutcome) : Engine :=
  let e' := { e with jobs := e.jobs.filter fun j => j.id != job.id }
  match e'.waiter? job.id with
  | none => e'
  | some (i, a) =>
    match outcome with
    | .outline o =>
      let (r, e'') := e'.analyse job o
      e''.move i (.announcing a r r.signals)
    | .unparsable cause => e'.fail i a (.unparsable a.path cause)
    | .aborted reason => e'.fail i a (.aborted a.path reason)

/-! ## 4. Steps of the engine -/

/-- A step of the engine, if it can take it. -/
def step? (e : Engine) : Action → Option Engine
  | .request path priority kind =>
    if (e.queue.nextTime? e.now).isSome then some (e.request path priority kind).2
    else some (e.requestBreaksOff path)
  | .payWake => e.payWake
  | .clear => some e.clear.2
  | .start => some e.start
  | .stop => some e.stop
  | .shutdownBegins => some e.shutdownBegins
  | .shutdownGoesOn k => e.shutdownGoesOn k
  | .loadBegins path => some (e.loadBegins path)
  | .loadAnswered k fault => e.loadAnswered k fault
  | .loadReturns k => e.loadReturns k
  | .tick now => some { e with now := now }
  | .endJob id outcome =>
    (e.jobs.find? fun j => j.id == id).map fun job => e.endJob job outcome
  | .worker i s => e.workers[i]?.bind fun w => e.workerStep? i w s

/-- **Any number of steps**, in any order the engine allows. -/
inductive Reaches (e : Engine) : Engine → Prop where
  | start : Reaches e e
  | step {e₁ e₂ : Engine} {a : Action} (h : Reaches e e₁) (hs : e₁.step? a = some e₂) :
      Reaches e e₂

theorem Reaches.trans {e₁ e₂ e₃ : Engine} (h₁ : Reaches e₁ e₂) (h₂ : Reaches e₂ e₃) :
    Reaches e₁ e₃ := by
  induction h₂ with
  | start => exact h₁
  | step _ hs ih => exact ih.step hs

end Engine

end CodeInsight
