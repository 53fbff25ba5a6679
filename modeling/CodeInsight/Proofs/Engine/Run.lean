import CodeInsight.Engine.Step

/-!
# Runs of the engine

* a `Moment` is an engine and what is done in it; a `Run` keeps every moment it went through, the
  latest first, so that what was done, and in which state of things, can be looked up afterwards;
* `Reaches` forgets the moments (`reaches_iff_run`);
* what a moment did to tasks is read off the moment alone: which task it asked for, replaced,
  dropped, took or ended (`Moment.asked?` … `Moment.ended?`), which it worked on (`Moment.hand?`)
  and which events it told of (`Moment.told`);
* `toldOf past t` are the events that were told of while a task was worked on, in their order.
-/

namespace CodeInsight

/-- The task in hand in a phase. -/
def Phase.task? (p : Phase) : Option Task := p.assignment?.map (·.task)

/-- An engine, and what is done in it. -/
structure Moment where
  engine : Engine
  action : Action

namespace Engine

/-! ## 1. Engines and runs -/

/-- An engine as it is built: nothing was asked of it yet. -/
def built (settings : Settings) (store : InsightStore) (isAdvised : Bool) (bus : EventBus) :
    Engine :=
  { settings := settings, store := store, isAdvised := isAdvised, bus := bus }

/-- **A run**, with the moments it went through, the latest first. -/
inductive Run (e₀ : Engine) : List Moment → Engine → Prop where
  | start : Run e₀ [] e₀
  | step {past : List Moment} {e e' : Engine} {a : Action} (h : Run e₀ past e)
      (hs : e.step? a = some e') : Run e₀ (⟨e, a⟩ :: past) e'

/-- What a list of actions leads to, if each of them can be done: the moments, the latest first, and
    the engine. -/
def trace? : List Action → List Moment × Engine → Option (List Moment × Engine)
  | [], r => some r
  | a :: as, (past, e) => (e.step? a).bind fun e' => trace? as (⟨e, a⟩ :: past, e')

/-- Doing one action after the other is a run. -/
theorem Run.of_trace? {e₀ e e' : Engine} {past later : List Moment} {as : List Action}
    (h : Run e₀ past e) (ht : trace? as (past, e) = some (later, e')) : Run e₀ later e' := by
  induction as generalizing past e with
  | nil =>
    cases ht
    exact h
  | cons a as ih =>
    obtain ⟨e₁, hs, ht⟩ := Option.bind_eq_some_iff.mp ht
    exact ih (h.step hs) ht

theorem actions_of_trace? {e e' : Engine} {past later : List Moment} {as : List Action}
    (ht : trace? as (past, e) = some (later, e')) :
    later.map (·.action) = as.reverse ++ past.map (·.action) := by
  induction as generalizing past e with
  | nil =>
    cases ht
    rfl
  | cons a as ih =>
    obtain ⟨e₁, hs, ht⟩ := Option.bind_eq_some_iff.mp ht
    rw [ih ht]
    simp

/-- Reaching an engine is running to it. -/
theorem reaches_iff_run {e₀ e : Engine} : e₀.Reaches e ↔ ∃ past, Run e₀ past e := by
  constructor
  · intro h
    induction h with
    | start => exact ⟨[], .start⟩
    | step _ hs ih =>
      obtain ⟨past, run⟩ := ih
      exact ⟨_, .step run hs⟩
  · rintro ⟨past, run⟩
    induction run with
    | start => exact .start
    | step _ hs ih => exact .step ih hs

/-- One run after another is a run. -/
theorem Run.append {e₀ e e' : Engine} {past later : List Moment} (h : Run e₀ past e)
    (h' : Run e later e') : Run e₀ (later ++ past) e' := by
  induction h' with
  | start => exact h
  | step _ hs ih => exact ih.step hs

/-- A run can be split between any two of its moments. -/
theorem Run.split {e₀ e : Engine} {past : List Moment} :
    ∀ {later : List Moment}, Run e₀ (later ++ past) e → ∃ e₁, Run e₀ past e₁ ∧ Run e₁ later e
  | [], h => ⟨e, h, .start⟩
  | _ :: _, h => by
    cases h with
    | step h hs =>
      obtain ⟨e₁, before, after⟩ := h.split
      exact ⟨e₁, before, after.step hs⟩

/-- A run can be cut at each of its moments. -/
theorem Run.cut {e₀ e : Engine} {m : Moment} {past later : List Moment}
    (h : Run e₀ (later ++ m :: past) e) :
    ∃ e₁, Run e₀ past m.engine ∧ m.engine.step? m.action = some e₁ ∧ Run e₁ later e := by
  obtain ⟨e₁, before, after⟩ := h.split
  cases before with
  | step before hs => exact ⟨e₁, before, hs, after⟩

/-! ## 2. Hands -/

/-- The phases of the workers. -/
def phases (e : Engine) : List Phase := e.workers.map (·.phase)

/-- Worker `i` is in a phase. -/
def At (e : Engine) (i : Nat) (p : Phase) : Prop := e.phases[i]? = some p

/-- The assignment in the hand of worker `i`. -/
def hand? (e : Engine) (i : Nat) : Option Assignment := e.phases[i]?.bind Phase.assignment?

/-- Worker `i` has a task in its hand. -/
def Holds (e : Engine) (i : Nat) (t : Task) : Prop := (e.hand? i).map (·.task) = some t

/-- The tasks in the hands of workers. -/
def inHand (e : Engine) : List Task := e.phases.filterMap Phase.task?

end Engine

/-! ## 3. What moments did -/

/-- The event that a happening is, if it is the publishing of one. -/
def Happening.event? : Happening → Option Event
  | published event => some event
  | _ => none

/-- The events published, in their order. -/
def Engine.events (e : Engine) : List Event := (e.history.filterMap Happening.event?).reverse

/-- Whether no collaborator breaks down: a file that cannot be read, a parser that breaks off, an
    analysis that takes too long and insights that cannot be saved are no breakdowns. -/
def Action.isSound : Action → Bool
  | worker _ (.endReading .breakdown) => false
  | worker _ (.advise (some _)) => false
  | worker _ (.save .breakdown) => false
  | _ => true

/-- Whether the cache is cleared. -/
def Action.isClear : Action → Bool
  | clear => true
  | _ => false

namespace Moment

/-- The engine after the moment. -/
def after (m : Moment) : Engine := (m.engine.step? m.action).getD m.engine

/-- The task that a call was answered with. -/
def asked? (m : Moment) : Option Task :=
  match m.action with
  | .request path priority kind =>
    if (m.engine.queue.nextTime? m.engine.now).isSome then
      some (m.engine.request path priority kind).1
    else none
  | _ => none

/-- The task that waited for a path and had to give way to a request for it. -/
def replaced? (m : Moment) : Option Task :=
  match m.action with
  | .request path _ _ => m.engine.queue.find? path
  | _ => none

/-- The tasks that waited when the cache was cleared. -/
def dropped (m : Moment) : List Task :=
  match m.action with
  | .clear => m.engine.queue.tasks
  | _ => []

/-- The task that a worker took out of the queue, and the worker. -/
def taken? (m : Moment) : Option (Nat × Task) :=
  match m.action with
  | .worker i .take => m.engine.queue.tasks.head?.map fun t => (i, t)
  | _ => none

/-- What was worked on: what the worker that moved had in its hand, or the one whose job ended. -/
def hand? (m : Moment) : Option Assignment :=
  match m.action with
  | .worker i _ => m.engine.hand? i
  | .endJob id _ => (m.engine.waiter? id).map (·.2)
  | _ => none

/-- The task that the worker that moved had in its hand and has no longer. -/
def ended? (m : Moment) : Option Task :=
  match m.action with
  | .worker i _ => if m.after.hand? i = none then (m.engine.hand? i).map (·.task) else none
  | _ => none

/-- The events told of. -/
def told (m : Moment) : List Event := m.after.events.drop m.engine.events.length

/-- The path and the insights that were written into the cache: by a worker that was not too late
    for its epoch, or by a call that loads and has found something. -/
def wrote? (m : Moment) : Option (String × List Insight) :=
  match m.action with
  | .worker i .cache =>
    match m.engine.phases[i]? with
    | some (.announcing a r []) =>
      if m.engine.epoch = a.epoch then some (a.path, r.insights) else none
    | _ => none
  | .worker i .refuse =>
    match m.engine.phases[i]? with
    | some (.refusing a _) => if m.engine.epoch = a.epoch then some (a.path, []) else none
    | _ => none
  | .loadReturns k =>
    match m.engine.loads[k]? with
    | some ⟨path, .answered epoch (.ok (some insights))⟩ =>
      if m.engine.epoch = epoch then some (path, insights) else none
    | _ => none
  | _ => none

/-- The insights that were written into the cache for a path. -/
def wroteFor? (m : Moment) (path : String) : Option (List Insight) :=
  m.wrote?.bind fun w => if w.1 = path then some w.2 else none

/-- The path and the insights that were saved, if they could be. -/
def saved? (m : Moment) : Option (String × List Insight) :=
  match m.action with
  | .worker i (.save .tried) =>
    match m.engine.phases[i]? with
    | some (.saving a insights) =>
      match (m.engine.store.save a.path insights m.engine.now).1 with
      | .ok _ => some (a.path, insights)
      | .error _ => none
    | _ => none
  | _ => none

/-- Whether a worker was too late to write its result into the cache: it had been cleared since the
    task was taken. -/
def isLate (m : Moment) : Bool :=
  match m.action, m.hand? with
  | .worker _ .cache, some a => m.engine.epoch != a.epoch
  | .worker _ .refuse, some a => m.engine.epoch != a.epoch
  | _, _ => false

/-- The content that the reading of a file ended with. -/
def read? (m : Moment) : Option String :=
  match m.action with
  | .worker _ (.endReading (.content text)) => some text
  | _ => none

/-- The outline that a job ended with. -/
def outlined? (m : Moment) : Option Outline :=
  match m.action with
  | .endJob _ (.outline o) => some o
  | _ => none

end Moment

/-- What is done in order is sound if each of it is. -/
theorem Engine.sound_of_trace? {e e' : Engine} {later : List Moment} {as : List Action}
    (ht : trace? as ([], e) = some (later, e')) (sound : ∀ a ∈ as, a.isSound = true) :
    ∀ m ∈ later, m.action.isSound = true := by
  intro m hm
  have done : m.action ∈ later.map (·.action) := List.mem_map_of_mem hm
  rw [actions_of_trace? ht] at done
  exact sound _ (by simpa using done)

/-- The tasks asked for, the latest first. -/
def askedIn (past : List Moment) : List Task := past.filterMap Moment.asked?

/-- The tasks that had to give way, the latest first. -/
def replacedIn (past : List Moment) : List Task := past.filterMap Moment.replaced?

/-- The tasks dropped. -/
def droppedIn (past : List Moment) : List Task := past.flatMap Moment.dropped

/-- The tasks taken by workers, the latest first. -/
def takenIn (past : List Moment) : List Task := past.filterMap fun m => m.taken?.map (·.2)

/-- The tasks that workers have done with, the latest first. -/
def endedIn (past : List Moment) : List Task := past.filterMap Moment.ended?

/-- The moments in which a task was worked on, the latest first. -/
def workOn (past : List Moment) (t : Task) : List Moment :=
  past.filter fun m => m.hand?.map (·.task) = some t

/-- The events told of in moments, in their order. -/
def toldIn (moments : List Moment) : List Event := moments.reverse.flatMap Moment.told

/-- The events told of while a task was worked on, in their order. -/
def toldOf (past : List Moment) (t : Task) : List Event := toldIn (workOn past t)

/-- The moments since the cache was cleared, the latest first. -/
def sinceClear (past : List Moment) : List Moment := past.takeWhile fun m => !m.action.isClear

end CodeInsight
