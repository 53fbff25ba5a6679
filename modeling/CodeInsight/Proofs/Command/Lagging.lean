import CodeInsight.Proofs.Command.Printing
import CodeInsight.Proofs.Number.Digits

/-!
# What is not printed

* whatever files there are, the engine may have analysed all of them before the first event is
  received (`Started.exists_quiet`): here none of the files can be read;
* if these are more than the stream keeps, the next look at the engine is from too far behind, and
  printing ends with no event printed and none reported lost (`exists_unprinted`).
-/

namespace CodeInsight

namespace Engine

variable {e e' : Engine} {p : Phase} {tasks : List Task}

/-! ## 1. One worker alone -/

/-- There is one worker, which is not told to stop, tasks wait, and nobody has registered with the
    bus. -/
structure Stands (p : Phase) (tasks : List Task) (e : Engine) : Prop where
  workers : e.workers = [⟨p, false⟩]
  tasks : e.queue.tasks = tasks
  unheard : e.bus.registered = []

theorem Stands.move (h : Stands p tasks e) (q : Phase) : Stands q tasks (e.move 0 q) where
  workers := by
    rw [Engine.move, h.workers]
    rfl
  tasks := h.tasks
  unheard := h.unheard

theorem Stands.log (h : Stands p tasks e) (lines : List LogLine) :
    Stands p tasks (e.log lines) := by
  rw [log_eq]
  exact ⟨h.workers, h.tasks, h.unheard⟩

theorem Stands.cacheIfCurrent (h : Stands p tasks e) (epoch : Nat) (path : String)
    (insights : List Insight) : Stands p tasks (e.cacheIfCurrent epoch path insights).2 := by
  unfold Engine.cacheIfCurrent
  split <;> exact ⟨h.workers, h.tasks, h.unheard⟩

theorem Stands.publish (h : Stands p tasks e) (event : Event) :
    Stands p tasks (e.publish event) := by
  obtain ⟨hs, -, published⟩ := publish_of_unheard h.unheard event
  rw [published]
  exact ⟨h.workers, h.tasks, h.unheard⟩

/-- Steps of the engine that neither ask for an analysis nor drop one, one after the other. -/
def Goes (e e' : Engine) : Prop :=
  ∃ past, Run e past e' ∧ ∀ m ∈ past, m.action.isOrderly = true

theorem Goes.refl (e : Engine) : Goes e e :=
  ⟨[], .start, fun _ hm => absurd hm List.not_mem_nil⟩

theorem Goes.step {e₁ : Engine} {a : Action} (h : Goes e e₁) (hs : e₁.step? a = some e')
    (orderly : a.isOrderly = true) : Goes e e' := by
  obtain ⟨past, run, calm⟩ := h
  exact ⟨_, run.step hs, List.forall_mem_cons.mpr ⟨orderly, calm⟩⟩

theorem Goes.trans {e₁ : Engine} (h : Goes e e₁) (h' : Goes e₁ e') : Goes e e' := by
  obtain ⟨past, run, calm⟩ := h
  obtain ⟨later, run', calm'⟩ := h'
  refine ⟨_, run.append run', fun m hm => ?_⟩
  rcases List.mem_append.mp hm with hm | hm
  · exact calm' m hm
  · exact calm m hm

/-- The worker takes an orderly step. -/
theorem Stands.goes (h : Stands p tasks e) {s : WorkerStep}
    (hs : e.workerStep? 0 ⟨p, false⟩ s = some e') (orderly : (Action.worker 0 s).isOrderly = true) :
    Goes e e' := by
  refine (Goes.refl e).step (a := .worker 0 s) ?_ orderly
  simp only [step?, h.workers]
  exact hs

/-! ## 2. Files that cannot be read -/

section Round

variable {t : Task} {a : Assignment} {fault : EngineFault}

theorem Stands.take (h : Stands .taking (t :: tasks) e) :
    ∃ e', Goes e e' ∧ Stands (.reading ⟨t, e.epoch⟩) tasks e' := by
  have next : e.queue.dequeue = (some t, { e.queue with tasks := tasks }) := by
    rw [TaskQueue.dequeue, h.tasks]
    rfl
  have taken : Stands .taking tasks { e with
      queue := { e.queue with tasks := tasks }
      loop := ⟨.processing, some t.path⟩
      history := .taken 0 t :: e.history } := ⟨h.workers, rfl, h.unheard⟩
  refine ⟨e.take 0, h.goes (s := .take) rfl rfl, ?_⟩
  unfold Engine.take
  rw [next]
  exact taken.move _

theorem Stands.fail (h : Stands (.reading a) tasks e) :
    ∃ e' fault, Goes e e' ∧ Stands (.refusing a fault) tasks e' :=
  ⟨_, .unreadable a.path .missing, h.goes (s := .endReading (.fault .missing)) rfl rfl,
    (h.log _).move _⟩

theorem Stands.refuse (h : Stands (.refusing a fault) tasks e) :
    ∃ e', Goes e e' ∧ Stands (.reporting a fault) tasks e' :=
  ⟨_, h.goes (s := .refuse) rfl rfl, (h.cacheIfCurrent _ _ _).move _⟩

theorem Stands.report (h : Stands (.reporting a fault) tasks e) :
    ∃ e', Goes e e' ∧ Stands .finishing tasks e' :=
  have settles := EventBus.settles_of_unheard h.unheard (.failed a.path fault.message e.now)
  ⟨_, h.goes (s := .report) (if_pos settles) rfl, (h.publish _).move _⟩

theorem Stands.finish (h : Stands .finishing tasks e) :
    ∃ e', Goes e e' ∧ Stands .resting tasks e' ∧ e'.loop = {} :=
  have seen : Stands .finishing tasks e.seenIdle := ⟨h.workers, h.tasks, h.unheard⟩
  ⟨_, h.goes (s := .finish) rfl rfl, seen.move _, rfl⟩

/-- **A task whose file cannot be read is done with**, and the worker is about to go on. -/
theorem Stands.round (h : Stands .checking (t :: tasks) e) :
    ∃ e', Goes e e' ∧ Stands .checking tasks e' ∧ e'.loop = {} := by
  have looks : Goes e (e.move 0 .taking) := h.goes (s := .look) rfl rfl
  obtain ⟨e₁, takes, reading⟩ := (h.move .taking).take
  obtain ⟨e₂, fault, fails, refusing⟩ := reading.fail
  obtain ⟨e₃, refuses, reporting⟩ := refusing.refuse
  obtain ⟨e₄, reports, finishing⟩ := reporting.report
  obtain ⟨e₅, finishes, resting, idle⟩ := finishing.finish
  have rests : Goes e₅ (e₅.move 0 .checking) := resting.goes (s := .restOver) rfl rfl
  have upToReport := (((looks.trans takes).trans fails).trans refuses).trans reports
  exact ⟨_, (upToReport.trans finishes).trans rests, resting.move .checking, idle⟩

end Round

/-- All tasks are done with, one after the other. -/
theorem Stands.rounds (h : Stands .checking tasks e) (idle : e.loop = {}) :
    ∃ e', Goes e e' ∧ Stands .checking [] e' ∧ e'.loop = {} := by
  induction tasks generalizing e with
  | nil => exact ⟨e, .refl e, h, idle⟩
  | cons t tasks ih =>
    obtain ⟨e₁, goes, stands, idle⟩ := h.round
    obtain ⟨e', goes', stands', idle'⟩ := ih stands idle
    exact ⟨e', goes.trans goes', stands', idle'⟩

/-- **An engine that was started can become quiet** before anybody looks. -/
theorem Started.exists_quiet {files : List String} (h : Started files e) :
    ∃ e', Goes e e' ∧ e'.isQuiet = true := by
  have stands : Stands .queueing e.queue.tasks e := ⟨h.workers, rfl, by rw [h.bus]⟩
  have free : e.slotTaken = false := by
    rw [slotTaken, h.workers]
    rfl
  have enters : Goes e (e.move 0 .checking) := stands.goes (s := .enterSlot)
    (by simp only [workerStep?, free]; rfl) rfl
  obtain ⟨e', goes, stands', idle⟩ := (stands.move .checking).rounds h.loop
  refine ⟨e', enters.trans goes, ?_⟩
  rw [isQuiet, TaskQueue.isEmpty, stands'.tasks, idle]
  rfl

end Engine

namespace Printing

open Engine

variable {files : List String}

/-! ## 3. Nothing printed -/

/-- The engine takes steps while nothing is received. -/
theorem PrintRun.engine {p₀ p : Printing} {past : List PrintMoment} {e : Engine}
    (run : PrintRun p₀ past p) (calm : ∀ m ∈ past, m.isOrderly = true)
    (goes : Goes p.time.engine e) :
    ∃ later, PrintRun p₀ later { p with time := { p.time with engine := e } } ∧
      ∀ m ∈ later, m.isOrderly = true := by
  obtain ⟨moments, steps, orderly⟩ := goes
  induction steps with
  | start => exact ⟨past, run, calm⟩
  | @step before e e' a _ hs ih =>
    obtain ⟨now, orderly⟩ := List.forall_mem_cons.mp orderly
    obtain ⟨later, run', calm'⟩ := ih orderly
    have went : ({ p with time := { p.time with engine := e } } : Printing).step? (.engine a) =
        some { p with time := { p.time with engine := e' } } := by
      simp only [step?, hs]
      rfl
    exact ⟨_, run'.step went, List.forall_mem_cons.mpr ⟨now, calm'⟩⟩

/-- **Printing can end with nothing printed** and nothing reported lost, whatever files there are,
    if these are more than the stream keeps events. -/
theorem exists_unprinted {e : Engine} (started : Started files e) (distinct : files.Nodup)
    (many : Channel.capacity < files.length) :
    ∃ past p, PrintRun (.start { engine := e } files) past p ∧ (∀ m ∈ past, m.isOrderly = true) ∧
      p.isOpen = false ∧ p.time.engine.isQuiet = true ∧
      (endedFiles p.time.engine.events).Perm files ∧ p.printed = [] ∧ p.skipped = 0 ∧
      p.progress.pending = files := by
  obtain ⟨e', goes, quiet⟩ := started.exists_quiet
  have begins : PrintRun (.start { engine := e } files) [] (.start { engine := e } files) := .start
  obtain ⟨past, run, calm⟩ := begins.engine (fun _ hm => absurd hm List.not_mem_nil) goes
  have ledger := run.ledger started distinct calm
  have ended := ledger.books.ended_of_over (ledger.books.over_of_isQuiet quiet)
  have far : Channel.capacity < (Printing.start { engine := e' } files).waiting := by
    have told : files.length ≤ e'.events.length := by
      rw [← ended.length_eq, endedFiles, List.length_map]
      exact List.length_filter_le _ _
    have sent : e'.bus.channel.count = e'.events.length := by
      rw [← Channel.length_order, ledger.books.streams.order]
    show Channel.capacity < e'.bus.channel.count - 0
    omega
  have going : (Printing.start { engine := e' } files).isOpen = true := by
    cases files with
    | nil => cases many
    | cons => rfl
  have looks := run.step (s := .look)
    ((if_pos going).trans (congrArg some (look_of_lagging quiet far)))
  exact ⟨_, _, looks, List.forall_mem_cons.mpr ⟨rfl, calm⟩, rfl, quiet, ended, rfl, rfl, rfl⟩

/-- More files than the stream keeps events. -/
def manyFiles : List String := (List.range 1025).map fun n => Nat.repr n ++ ".rs"

/-- **Of 1025 files none is heard of**: each was told of to the end, the engine was seen quiet with
    an empty queue, printing has ended, and of the 1024 events that were still there none was
    printed. -/
theorem unprinted_manyFiles :
    ∃ p₀ past p, ({ tree := {} } : Workplace).begin? {} default manyFiles .medium = some p₀ ∧
      PrintRun p₀ past p ∧ (∀ m ∈ past, m.isOrderly = true) ∧ p.isOpen = false ∧
      p.time.engine.isQuiet = true ∧ (endedFiles p.time.engine.events).Perm manyFiles ∧
      p.printed = [] ∧ p.skipped = 0 ∧ p.progress.pending = manyFiles := by
  have distinct : manyFiles.Nodup := by
    refine List.Pairwise.map _ (fun m n other same => other ?_) List.nodup_range
    have digits := congrArg String.toList ((String.append_left_inj ".rs").mp same)
    rw [Nat.toList_repr, Nat.toList_repr] at digits
    exact toDigits_inj.mp digits
  have number : manyFiles.length = 1025 := by rw [manyFiles, List.length_map, List.length_range]
  have many : Channel.capacity < manyFiles.length := by
    rw [number]
    decide
  have left : ({ tree := {} } : Workplace).now.second + manyFiles.length ≤ Instant.last := by
    rw [number]
    decide
  obtain ⟨e, built⟩ := Workplace.exists_engineFor { tree := {} } {} default manyFiles .medium left
  have started := Workplace.started_engineFor built distinct
  obtain ⟨past, p, unprinted⟩ := exists_unprinted started distinct many
  exact ⟨_, past, p, congrArg (Option.map _) built, unprinted⟩

end Printing

end CodeInsight
