import CodeInsight.Proofs.Engine.Accounts
import CodeInsight.Proofs.Engine.Lives

/-!
# Breakdowns

* a running engine has one worker that was not told to stop, and that one goes on unless it broke
  down with the reading of a file, a proposal or the saving of insights (`Run.running_worker`);
* while it is broken nobody is about to take a task (`Run.deserted`), so **no task is taken, and
  starting the engine does nothing, until somebody stops it** (`RunningWorker.stuck`);
* this happens, and the engine goes on saying that it is running (`running_without_worker`).
-/

namespace CodeInsight.Engine

variable {e e' : Engine} {a : Action} {i : Nat}

/-! ## 1. Nobody takes a task -/

/-- While a worker is broken that nobody told to stop, no worker is about to take a task. -/
def Deserted (e : Engine) : Prop :=
  ∀ i, e.At i .broken → e.tokens[i]? = some false → ∀ j, ¬ e.At j .taking

/-- Who breaks down has a task in hand. -/
theorem BreaksDown.busy (h : BreaksDown e i a) : ∃ p, e.At i p ∧ p.assignment? ≠ none := by
  cases h with
  | reading h | proposing h | saving h => exact ⟨_, h, Option.some_ne_none _⟩

theorem lt_of_at {p : Phase} (h : e.At i p) : i < e.tokens.length := by
  obtain ⟨w, hw, -⟩ := at_iff.mp h
  exact length_tokens e ▸ (List.getElem?_eq_some_iff.mp hw).1

/-- Who was not told to stop was not told so before. -/
theorem Grown.kept (grown : Grown e e') (there : i < e.tokens.length)
    (kept : e'.tokens[i]? = some false) : e.tokens[i]? = some false := by
  cases token : e.tokens[i] with
  | false => rw [List.getElem?_eq_getElem there, token]
  | true =>
    have told : e'.Cancelled i := grown.cancelled i (by simp [Cancelled, there, token])
    rw [Cancelled, kept] at told
    cases told

theorem Deserted.step (h : e.Deserted) (one : e.OneInSlot) (last : e.Succession)
    (hs : e.step? a = some e') : e'.Deserted := by
  intro i broken kept j taking
  rcases caused_of_step hs i _ broken with before | breaks
  · have kept : e.tokens[i]? = some false :=
      (lifecycle_of_step hs).grown.kept (lt_of_at before) kept
    rcases caused_of_step hs j _ taking with before' | ⟨checking, token⟩
    · exact h i before kept j before'
    · -- only the broken worker was not told to stop
      have := last.last_of_kept kept
      have := last.last_of_kept token
      obtain rfl : i = j := by omega
      cases before.unique checking
  · -- whoever is about to take a task now was in the slot, and so was the worker that breaks down
    obtain ⟨q, hq, busy⟩ := breaks.busy
    have alone {p : Phase} (hp : e.At j p) (slot : p.inSlot = true)
        (free : p.assignment? = none) : False := by
      cases one i j q p hq hp (inSlot_of_busy busy) slot
      rw [hq.unique hp] at busy
      exact busy free
    rcases caused_of_step hs j _ taking with before | ⟨checking, -⟩
    · exact alone before rfl rfl
    · exact alone checking rfl rfl

section Runs

variable {settings : Settings} {store : InsightStore} {isAdvised : Bool} {bus : EventBus}
variable {past : List Moment}

theorem Run.deserted (h : Run (built settings store isAdvised bus) past e) : e.Deserted := by
  induction h with
  | start =>
    intro i broken
    cases broken
  | step h hs ih => exact ih.step h.oneInSlot h.succession hs

/-- **Who has ended without being told to stop is broken.** -/
theorem Run.broken_of_hasEnded (h : Run (built settings store isAdvised bus) past e)
    (kept : e.tokens[i]? = some false) (ended : e.hasEnded i = true) : e.At i .broken := by
  have there : i < e.workers.length := by
    rw [← length_tokens]
    exact (List.getElem?_eq_some_iff.mp kept).1
  have here : e.At i (e.workers[i]).phase :=
    at_iff.mpr ⟨_, List.getElem?_eq_getElem there, rfl⟩
  have done := hasEnded_iff.mp ended _ here
  cases hp : (e.workers[i]).phase with
  | broken => exact hp ▸ here
  | exited =>
    have told : e.Cancelled i := h.cancelled_of_left (.inr (hp ▸ here))
    rw [Cancelled, kept] at told
    cases told
  | _ =>
    rw [hp] at done
    cases done

/-! ## 2. The worker of a running engine -/

/-- **The worker of a running engine.** -/
structure RunningWorker (past : List Moment) (e : Engine) (i : Nat) : Prop where
  /-- It was started last. -/
  last : i + 1 = e.workers.length
  /-- It is the only one that was not told to stop. -/
  kept : ∀ j, e.tokens[j]? = some false ↔ j = i
  /-- It has ended exactly if it broke down. -/
  ended : e.hasEnded i = true ↔ ∃ m ∈ past, BreaksDown m.engine i m.action
  /-- If so, then until the engine is stopped it says that it is running, starting it does nothing,
      and nobody takes a task. -/
  stuck : e.hasEnded i = true → ∀ later e', Run e later e' →
    (∀ m ∈ later, m.stopsEngine = false) →
      e'.isRunning = true ∧ e'.start = e' ∧ takenIn later = []

/-- What stays while the worker of a running engine is broken. -/
theorem Run.stuck (h : Run (built settings store isAdvised bus) past e)
    (on : e.isRunning = true) (kept : e.tokens[i]? = some false) (ended : e.hasEnded i = true)
    {later : List Moment} (rest : Run e later e') (goesOn : ∀ m ∈ later, m.stopsEngine = false) :
    e'.isRunning = true ∧ e'.tokens = e.tokens ∧ e'.hasEnded i = true ∧ takenIn later = [] := by
  induction rest with
  | start => exact ⟨on, rfl, ended, rfl⟩
  | @step later e₁ e₂ a rest hs ih =>
    obtain ⟨on, same, ended, nothing⟩ := ih fun m hm => goesOn m (List.mem_cons_of_mem _ hm)
    have run := h.append rest
    have kept : e₁.tokens[i]? = some false := same.symm ▸ kept
    obtain ⟨on', same'⟩ := isRunning_step hs on (goesOn _ List.mem_cons_self)
    have there : i < e₁.tokens.length := (List.getElem?_eq_some_iff.mp kept).1
    refine ⟨on', same'.trans same, (lifecycle_of_step hs).hasEnded there ended, ?_⟩
    have none' : (Moment.mk e₁ a).taken? = none := by
      cases taken : (Moment.mk e₁ a).taken? with
      | none => rfl
      | some it =>
        obtain ⟨-, taking, -, -⟩ := (effect_of_step hs).walk.of_taken taken
        exact absurd taking (run.deserted i (run.broken_of_hasEnded kept ended) kept _)
    rw [takenIn_cons, none', nothing]
    rfl

/-- **A running engine has a worker**, which goes on unless it broke down with a file, a proposal or
    the saving of insights, whatever else the collaborators do. -/
theorem Run.running_worker (run : Run (built settings store isAdvised bus) past e)
    (on : e.isRunning = true) : ∃ i, RunningWorker past e i := by
  obtain ⟨i, last, kept⟩ := run.succession.isRunning_iff.mp on
  refine ⟨i, last, fun j => ⟨fun other => ?_, fun same => same ▸ kept⟩, ⟨fun ended => ?_, ?_⟩, ?_⟩
  · have := run.succession.last_of_kept kept
    have := run.succession.last_of_kept other
    omega
  · exact run.breaksDown_of_broken (run.broken_of_hasEnded kept ended)
  · rintro ⟨m, hm, breaks⟩
    exact (run.hasEnded_of_breaksDown m hm breaks).2
  · intro ended later e' rest goesOn
    obtain ⟨on, -, -, nothing⟩ := run.stuck on kept ended rest goesOn
    exact ⟨on, start_of_isRunning on, nothing⟩

/-- A worker takes the only task. -/
def oneTaken : List Action :=
  [.request "a.ts" .medium .full, .start, .worker 0 .enterSlot, .worker 0 .look, .worker 0 .take]

theorem running_worker_oneTaken :
    ∃ past e, Run (built default (.memory .empty) false {}) past e ∧
      e.isRunning = true ∧ ∃ i, RunningWorker past e i := by
  obtain ⟨⟨past, e⟩, ht, on⟩ := Option.map_eq_some_iff.mp (show
    (trace? oneTaken ([], built default (.memory .empty) false {})).map
      (·.2.isRunning) = some true by decide)
  have run := Run.start.of_trace? ht
  exact ⟨past, e, run, on, run.running_worker on⟩

/-- Then it breaks down with the reading of the file, and another task is asked for. -/
def brokenReading : List Action :=
  oneTaken ++ [.worker 0 (.endReading .breakdown), .request "b.ts" .medium .full]

/-- **An engine may say that it is running while every worker was told to stop or has ended**: a
    task waits, and starting the engine does nothing. -/
theorem running_without_worker :
    ∃ past e, Run (built default (.memory .empty) false {}) past e ∧ e.isRunning = true ∧
      (∀ i < e.workers.length, e.Cancelled i ∨ e.hasEnded i = true) ∧
        e.queue.tasks ≠ [] ∧ e.start = e := by
  obtain ⟨⟨past, e⟩, ht, seen⟩ := Option.map_eq_some_iff.mp (show
    (trace? brokenReading ([], built default (.memory .empty) false {})).map
      (fun r => (r.2.isRunning, r.2.workers.all (·.isOver), r.2.queue.isEmpty)) =
        some (true, true, false) by decide)
  have run := Run.start.of_trace? ht
  obtain ⟨on, ended, waiting⟩ : _ ∧ _ ∧ _ := by simpa only [Prod.mk.injEq] using seen
  refine ⟨past, e, run, on, fun i hi => .inr ?_, fun empty => ?_, start_of_isRunning on⟩
  · rw [hasEnded, List.getElem?_eq_getElem hi]
    exact List.all_eq_true.mp ended _ (List.getElem_mem hi)
  · rw [TaskQueue.isEmpty, empty] at waiting
    cases waiting

end Runs

end CodeInsight.Engine
