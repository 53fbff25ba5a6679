import CodeInsight.Proofs.Engine.Shutdown

/-!
# The lives of workers

* a worker comes to take a task only if it has just seen that it was not told to stop, it leaves
  only if it was told to, and it breaks down only with the reading of a file, with a proposal or
  with the saving of insights (`caused_of_step`): whatever else a collaborator does is contained;
* so a worker that has left was told to stop (`Run.cancelled_of_left`), and one that is broken did
  break down in some moment (`Run.breaksDown_of_broken`);
* the engine is running exactly if the worker started last was not told to stop
  (`Succession.isRunning_iff`), and it runs on until it is stopped (`isRunning_step`).
-/

namespace CodeInsight

/-- Whether the engine is stopped in a moment: by a call to stop it, or by one to shut it down. -/
def Moment.stopsEngine (m : Moment) : Bool :=
  match m.action with
  | .stop => true
  | .shutdownGoesOn k => m.engine.shutdowns[k]? == some .begun
  | _ => false

namespace Engine

variable {e e' : Engine} {a : Action} {i : Nat}

/-! ## 1. Why a worker is in a phase -/

/-- **How worker `i` may break down**: with a file that it reads, with a candidate that it proposes
    to somebody who wants to know, or with the insights that it saves. -/
inductive BreaksDown (e : Engine) (i : Nat) : Action → Prop where
  | reading {b : Assignment} (h : e.At i (.reading b)) :
      BreaksDown e i (.worker i (.endReading .breakdown))
  | proposing {b : Assignment} {r : AnalysisResult} {current : Bool} {n : Nat}
      (h : e.At i (.advising b r current)) (advised : e.isAdvised = true)
      (there : n < r.candidates.length) : BreaksDown e i (.worker i (.advise (some n)))
  | saving {b : Assignment} {insights : List Insight} (h : e.At i (.saving b insights)) :
      BreaksDown e i (.worker i (.save .breakdown))

/-- What is behind it if worker `i` has just come to a phase. -/
def Cause (e : Engine) (a : Action) (i : Nat) : Phase → Prop
  | .taking => e.At i .checking ∧ e.tokens[i]? = some false
  | .leaving => e.Cancelled i
  | .exited => e.At i .leaving
  | .broken => BreaksDown e i a
  | _ => True

/-- Whoever is in a phase after a step was there before or has a cause. -/
def Caused (e : Engine) (a : Action) (e' : Engine) : Prop :=
  ∀ j q, e'.At j q → e.At j q ∨ Cause e a j q

theorem caused_of_phases (same : e'.phases = e.phases) : Caused e a e' := by
  intro j q hq
  rw [At, same] at hq
  exact .inl hq

theorem caused_move {e₁ : Engine} {p : Phase} (same : e₁.phases = e.phases)
    (cause : Cause e a i p) : Caused e a (e₁.move i p) := by
  intro j q hq
  rw [At, phases_move, same] at hq
  rcases getElem?_set_cases hq with old | ⟨rfl, rfl⟩
  · exact .inl old
  · exact .inr cause

/-- A wake-up brings a worker to no phase that has a cause. -/
theorem Caused.wakeOne (h : Caused e a e') : Caused e a e'.wakeOne := by
  rcases wakeOne_cases e' with ⟨same, -⟩ | ⟨i, -, moved⟩
  · rw [same]
    exact h
  · rw [moved]
    intro j q hq
    rw [At, phases_move] at hq
    rcases getElem?_set_cases hq with old | ⟨rfl, rfl⟩
    · exact h j q old
    · exact .inr trivial

theorem caused_abandon {notified : Bool} {p : Phase} (cause : Cause e a i p) :
    Caused e a (e.abandon i notified p) := by
  have moved : Caused e a (e.move i p) := caused_move rfl cause
  unfold abandon
  cases notified with
  | false => exact moved
  | true => exact moved.wakeOne

/-! ## 2. One step -/

section Inversion

variable {w : Worker} {b : Assignment} {r : AnalysisResult}

@[simp] theorem phases_log (e : Engine) (lines : List LogLine) :
    (e.log lines).phases = e.phases := by
  rw [log_eq]
  rfl

theorem caused_look (hw : e.workers[i]? = some w) (hp : w.phase = .checking) :
    Caused e (.worker i .look) (e.move i (if w.cancelled then .leaving else .taking)) := by
  have token : e.tokens[i]? = some w.cancelled := by simp [tokens, hw]
  refine caused_move rfl ?_
  cases hc : w.cancelled with
  | true => exact token.trans (congrArg some hc)
  | false => exact ⟨at_iff.mpr ⟨w, hw, hp⟩, token.trans (congrArg some hc)⟩

theorem caused_endReading (h : e.At i (.reading b)) :
    ∀ outcome, Caused e (.worker i (.endReading outcome)) (e.endReading i b outcome)
  | .content _ => caused_move rfl trivial
  | .fault _ => caused_move (phases_log _ _) trivial
  | .breakdown => caused_move rfl (.reading h)

theorem caused_advise {current : Bool} (h : e.At i (.advising b r current))
    (breaksAt : Option Nat) :
    Caused e (.worker i (.advise breaksAt)) (e.advise i b r current breaksAt) := by
  unfold advise
  split
  · rename_i advised
    split
    · split
      · rename_i there
        rw [propose_eq]
        exact caused_move rfl (.proposing h advised there)
      · rw [propose_eq]
        exact caused_move rfl trivial
    · rw [propose_eq]
      exact caused_move rfl trivial
  · exact caused_move rfl trivial

theorem caused_saveInsights {insights : List Insight} (h : e.At i (.saving b insights)) :
    ∀ outcome, Caused e (.worker i (.save outcome)) (e.saveInsights i b.path insights outcome)
  | .tried => by
    unfold saveInsights
    dsimp only
    split
    · exact caused_move rfl trivial
    · exact caused_move (phases_log _ _) trivial
  | .fault _ => caused_move (phases_log _ _) trivial
  | .breakdown => caused_move rfl (.saving h)

/-- A step of a worker that does no work, or with which it may break down. -/
theorem caused_of_workerStep {s : WorkerStep} (hw : e.workers[i]? = some w)
    (hs : e.workerStep? i w s = some e')
    (special : ¬ ((Action.worker i s).isAside = false ∧ (Action.worker i s).isSound = true)) :
    Caused e (.worker i s) e' := by
  have here {p : Phase} (hp : w.phase = p) : e.At i p := at_iff.mpr ⟨w, hw, hp⟩
  have told (hc : w.cancelled = true) : e.Cancelled i := by simp [Cancelled, tokens, hw, hc]
  unfold workerStep? at hs
  -- the steps to a phase that has a cause, those under a condition, and then all others
  split at hs <;> first
    | exact absurd ⟨rfl, rfl⟩ special
    | (cases hs; exact caused_look hw ‹_›)
    | (cases hs; exact caused_endReading (here ‹_›) _)
    | (cases hs; exact caused_advise (here ‹_›) _)
    | (cases hs; exact caused_saveInsights (here ‹_›) _)
    | (cases hs; exact caused_move rfl (here ‹_›))
    | (split at hs <;> cases hs; exact caused_move rfl (told ‹_›))
    | (split at hs <;> cases hs; exact caused_abandon (told ‹_›))
    | (split at hs <;> cases hs; exact caused_move rfl trivial)
    | (cases hs; exact caused_abandon trivial)
    | (cases hs; exact caused_move rfl trivial)
    | cases hs

/-- Any other step that does work leads to no phase that has a cause. -/
theorem caused_of_effect (h : Effect e a e') (ha : a.isAside = false) (sound : a.isSound = true) :
    Caused e a e' := by
  cases h with
  | aside ha' =>
    rw [ha] at ha'
    cases ha'
  | breakdown _ _ unsound =>
    rw [sound] at unsound
    cases unsound
  | request | requestBreaksOff | clear | loadBegins | loadAnswered | loadCached | loadNotCached
  | jobLost => exact caused_of_phases rfl
  | @close i b r current =>
    cases current with
    | true => exact caused_move rfl trivial
    | false => exact caused_move rfl trivial
  | takeNothing | take | content | unreadable | outOfTime | announce | cached | notCached | advise
  | saved | notSaved | emptied | notEmptied | report | analysed | notAnalysed =>
    exact caused_move rfl trivial

/-- A call that starts or stops the engine, or a wake-up, brings nobody to such a phase either. -/
theorem caused_of_aside (h : Aside e a e') (own : ∀ i s, a ≠ .worker i s) : Caused e a e' := by
  cases h with
  | goes | abandons | finishes | leaves => exact absurd rfl (own _ _)
  | @wakes n =>
    have owed : Caused e .payWake { e with wakesOwed := n } := caused_of_phases rfl
    exact owed.wakeOne
  | start =>
    unfold Engine.start
    split
    · exact caused_of_phases rfl
    · intro j q hq
      by_cases new : q = .queueing
      · rw [new]
        exact .inr trivial
      · exact .inl ((at_of_phases_append (by simp [phases]) new).mp hq)
  | stop => exact caused_of_phases e.phases_stop
  | stops => exact caused_of_phases e.phases_stop
  | begins | takesUp | returns | tick => exact caused_of_phases rfl

/-- **Whoever is in a phase after a step was there before or has a cause.** -/
theorem caused_of_step (hs : e.step? a = some e') : Caused e a e' := by
  by_cases works : a.isAside = false ∧ a.isSound = true
  · exact caused_of_effect (effect_of_step hs) works.1 works.2
  · cases a with
    | worker i s =>
      obtain ⟨w, hw, hs⟩ := Option.bind_eq_some_iff.mp hs
      exact caused_of_workerStep hw hs works
    | payWake | start | stop | shutdownBegins | shutdownGoesOn | tick =>
      exact caused_of_aside (aside_of_step hs rfl) nofun
    | _ => exact absurd ⟨rfl, rfl⟩ works

end Inversion

/-! ## 3. What stays -/

/-- Who has ended has ended. -/
theorem Lifecycle.hasEnded (life : Lifecycle e a e') (there : i < e.tokens.length)
    (ended : e.hasEnded i = true) : e'.hasEnded i = true := by
  cases life with
  | same same => exact same.ended i ended
  | start => exact hasEnded_withWorker ended (Nat.ne_of_lt (length_tokens e ▸ there))
  | stop | stops => exact (hasEnded_stop e i).trans ended
  | begins | takesUp | returns => exact ended

/-- Who breaks down is broken. -/
theorem broken_of_breaksDown (hs : e.step? a = some e') (h : BreaksDown e i a) :
    e'.At i .broken := by
  have moved {e₁ : Engine} {p : Phase} (same : e₁.phases = e.phases) (h : e.At i p) :
      (e₁.move i .broken).At i .broken :=
    at_moved (by rw [phases_move, same]) h
  cases h with
  | reading h =>
    obtain ⟨w, hw, hp⟩ := at_iff.mp h
    simp only [step?, hw, Option.bind_some, workerStep?, hp, endReading] at hs
    cases hs
    exact moved rfl h
  | proposing h advised there =>
    obtain ⟨w, hw, hp⟩ := at_iff.mp h
    simp only [step?, hw, Option.bind_some, workerStep?, hp, advise, advised, if_true,
      if_pos there, propose_eq] at hs
    cases hs
    exact moved rfl h
  | saving h =>
    obtain ⟨w, hw, hp⟩ := at_iff.mp h
    simp only [step?, hw, Option.bind_some, workerStep?, hp, saveInsights] at hs
    cases hs
    exact moved rfl h

/-- The engine is running exactly if the worker started last was not told to stop. -/
theorem isRunning_iff_latest :
    e.isRunning = true ↔ ∃ i, e.latest = some i ∧ e.tokens[i]? = some false := by
  unfold isRunning tokens
  cases e.latest with
  | none => simp
  | some i => cases hw : e.workers[i]? <;> simp [hw]

theorem Succession.isRunning_iff (one : e.Succession) :
    e.isRunning = true ↔ ∃ i, i + 1 = e.workers.length ∧ e.tokens[i]? = some false := by
  simp only [isRunning_iff_latest, one.latest, length_tokens]

/-- Starting a running engine does nothing. -/
theorem start_of_isRunning (on : e.isRunning = true) : e.start = e := if_pos on

/-- Only the worker started last may not have been told to stop. -/
theorem Succession.last_of_kept (one : e.Succession) (kept : e.tokens[i]? = some false) :
    i + 1 = e.tokens.length := by
  have there : i < e.tokens.length := (List.getElem?_eq_some_iff.mp kept).1
  refine Nat.le_antisymm there (Nat.not_lt.mp fun another => ?_)
  have told : e.Cancelled i := one.replaced i another
  rw [Cancelled, kept] at told
  cases told

/-- A running engine runs on with the same worker unless it is stopped. -/
theorem isRunning_step (hs : e.step? a = some e') (on : e.isRunning = true)
    (goesOn : (Moment.mk e a).stopsEngine = false) :
    e'.isRunning = true ∧ e'.tokens = e.tokens := by
  rw [isRunning_iff_latest] at on ⊢
  cases lifecycle_of_step hs with
  | same same =>
    rw [same.latest, same.tokens]
    exact ⟨on, rfl⟩
  | start off =>
    rw [Bool.eq_false_iff, ne_eq, isRunning_iff_latest] at off
    exact absurd on off
  | stop => cases goesOn
  | stops h => simp [Moment.stopsEngine, h] at goesOn
  | begins | takesUp | returns => exact ⟨on, rfl⟩

/-! ## 4. Runs -/

section Runs

variable {settings : Settings} {store : InsightStore} {isAdvised : Bool} {bus : EventBus}
variable {past : List Moment} {e₀ : Engine}

/-- **Only a worker that was told to stop leaves.** -/
theorem Run.cancelled_of_left (h : Run (built settings store isAdvised bus) past e)
    (left : e.At i .leaving ∨ e.At i .exited) : e.Cancelled i := by
  induction h with
  | start => rcases left with at' | at' <;> cases at'
  | step _ hs ih =>
    refine (lifecycle_of_step hs).grown.cancelled i ?_
    rcases left with leaving | exited
    · rcases caused_of_step hs i _ leaving with before | told
      · exact ih (.inl before)
      · exact told
    · rcases caused_of_step hs i _ exited with before | leaving
      · exact ih (.inr before)
      · exact ih (.inl leaving)

/-- Who is broken has broken down. -/
theorem Run.breaksDown_of_broken (h : Run (built settings store isAdvised bus) past e)
    (broken : e.At i .broken) : ∃ m ∈ past, BreaksDown m.engine i m.action := by
  induction h with
  | start => cases broken
  | step _ hs ih =>
    rcases caused_of_step hs i _ broken with before | breaks
    · obtain ⟨m, hm, breaks⟩ := ih before
      exact ⟨m, List.mem_cons_of_mem _ hm, breaks⟩
    · exact ⟨_, List.mem_cons_self, breaks⟩

/-- Who has broken down has ended. -/
theorem Run.hasEnded_of_breaksDown (h : Run e₀ past e) :
    ∀ m ∈ past, BreaksDown m.engine i m.action → i < e.tokens.length ∧ e.hasEnded i = true := by
  induction h with
  | start =>
    intro m hm
    cases hm
  | @step past e e' a h hs ih =>
    intro m hm breaks
    rcases List.mem_cons.mp hm with rfl | hm
    · have broken : e'.At i .broken := broken_of_breaksDown hs breaks
      obtain ⟨w, hw, -⟩ := at_iff.mp broken
      refine ⟨length_tokens e' ▸ (List.getElem?_eq_some_iff.mp hw).1, hasEnded_iff.mpr ?_⟩
      intro p hp
      rw [hp.unique broken]
      rfl
    · obtain ⟨there, ended⟩ := ih m hm breaks
      have life := lifecycle_of_step hs
      exact ⟨Nat.lt_of_lt_of_le there life.grown.length, life.hasEnded there ended⟩

end Runs

end Engine

end CodeInsight
