import CodeInsight.Proofs.Engine.Lives
import CodeInsight.Proofs.Engine.Telling
import Mathlib.Data.List.Nodup
import Mathlib.Data.List.Perm.Subperm

/-!
# Jobs

* a worker that waits for a job goes on waiting till the job ends or the worker gives it up
  (`waits_of_step`), so each job in progress is waited for or was given up (`Run.watched`);
* the worker in the slot waits for one job at most: **of the jobs in progress one at most was not
  given up**, and a job begins only where all others were (`Run.jobs_inProgress`);
* nobody gives up a job if an analysis may take as long as it likes; else a job that was given up
  goes on beside the next one (`jobs_atOnce`).
-/

namespace CodeInsight

/-- The job that the worker that moved waited for and does not wait for any longer, as the analysis
    takes too long. -/
def Moment.gaveUp? (m : Moment) : Option Nat :=
  match m.action with
  | .worker i .runOutOfTime =>
    match m.engine.phases[i]? with
    | some (.analysing _ job) => some job
    | _ => none
  | _ => none

/-- The jobs that were given up, the latest first. -/
def givenUpIn (past : List Moment) : List Nat := past.filterMap Moment.gaveUp?

theorem mem_givenUpIn_cons {m : Moment} {past : List Moment} {id : Nat} :
    id ∈ givenUpIn (m :: past) ↔ m.gaveUp? = some id ∨ id ∈ givenUpIn past := by
  unfold givenUpIn
  cases h : m.gaveUp? with
  | none => simp [h]
  | some given => simp [h, eq_comm]

/-- Where all elements are the same one and none is there twice, there is one at most. -/
theorem length_le_one_of_nodup {α : Type} {l : List α} (nodup : l.Nodup)
    (same : ∀ x ∈ l, ∀ y ∈ l, x = y) : l.length ≤ 1 := by
  match l, nodup, same with
  | [], _, _ => exact Nat.zero_le 1
  | [_], _, _ => exact Nat.le_refl 1
  | x :: y :: l, nodup, same =>
    have equal : x = y := same x List.mem_cons_self y (List.mem_cons_of_mem _ List.mem_cons_self)
    exact absurd (equal ▸ List.mem_cons_self) (List.nodup_cons.mp nodup).1

namespace Engine

variable {e e' : Engine} {a : Action} {past : List Moment}

/-! ## 1. One step -/

/-- Who breaks down does not wait for a job. -/
theorem ne_analysing_of_broken (hs : e.step? a = some e') {i id : Nat} {p : Phase}
    {b : Assignment} (h : e.At i p) (busy : p.assignment? ≠ none) (broken : e'.At i .broken) :
    p ≠ .analysing b id := by
  rcases caused_of_step hs i _ broken with before | breaks
  · rw [h.unique before] at busy
    exact absurd rfl busy
  · cases breaks with
    | reading at' | proposing at' | saving at' =>
      rw [h.unique at']
      exact nofun

/-- **A worker goes on waiting for its job** unless it gives it up or the job ends. -/
theorem waits_of_step (hs' : e.step? a = some e') {j id : Nat} {b : Assignment}
    (waits : e.At j (.analysing b id)) :
    e'.At j (.analysing b id) ∨ (Moment.mk e a).gaveUp? = some id ∨
      ∃ outcome, a = .endJob id outcome := by
  cases effect_of_step hs' with
  | aside _ _ same => exact .inl ((same.busy j (.analysing b id) nofun).mpr waits)
  | request | requestBreaksOff | clear | loadBegins | loadAnswered | loadCached | loadNotCached
  | jobLost => exact .inl waits
  | @outOfTime i p c fault hs h hp =>
    by_cases own : p = .analysing b id
    · have h : e.phases[i]? = some p := h
      exact .inr (.inl (by simp [Moment.gaveUp?, h, own]))
    · exact .inl (at_stays (phases_move _ _ _) h waits own)
  | @breakdown i s p hs h busy unsound =>
    exact .inl (at_stays (phases_move _ _ _) h waits (ne_analysing_of_broken hs' h busy
      (at_moved (phases_move _ _ _) h)))
  | @analysed ended i c job o there hid found =>
    by_cases same : ended = id
    · exact .inr (.inr ⟨_, by rw [same]⟩)
    · exact .inl (at_stays (phases_move _ _ _) (at_of_waiter? found) waits
        (by simpa using fun _ => same))
  | @notAnalysed ended i c outcome fault hs found =>
    by_cases same : ended = id
    · exact .inr (.inr ⟨_, by rw [same]⟩)
    · exact .inl (at_stays (phases_move _ _ _) (at_of_waiter? found) waits
        (by simpa using fun _ => same))
  | takeNothing h | take h | content h | unreadable h | announce h | cached h | notCached h
  | advise h | close h | saved h | notSaved h | emptied h | notEmptied h | report h =>
    exact .inl (at_stays (phases_move _ _ _) h waits nofun)

/-- **What a step does to the jobs**: one begins for the file that a worker has read, one ends, or
    they are left alone. -/
theorem jobs_of_step (hs : e.step? a = some e') :
    (e'.jobs = e.jobs ∧ ∀ id outcome, a ≠ .endJob id outcome) ∨
      (∃ i b text, a = .worker i (.endReading (.content text)) ∧ e.At i (.reading b) ∧
        e'.At i (.analysing b e.jobCount) ∧ e'.jobs = e.jobs ++ [⟨e.jobCount, b.path, text⟩]) ∨
      ∃ id outcome, a = .endJob id outcome ∧ e'.jobs = e.jobs.filter fun job => job.id != id := by
  cases effect_of_step hs with
  | aside ha _ same =>
    refine .inl ⟨same.jobs, ?_⟩
    rintro id outcome rfl
    cases ha
  | content h =>
    exact .inr (.inl ⟨_, _, _, rfl, h, at_moved (phases_move _ _ _) h, rfl⟩)
  | analysed | notAnalysed | jobLost => exact .inr (.inr ⟨_, _, rfl, rfl⟩)
  | takeNothing | take | request | requestBreaksOff | clear | loadBegins | loadAnswered
  | loadCached | loadNotCached | unreadable | outOfTime | announce | cached | notCached | advise
  | close | saved | notSaved | emptied | notEmptied | report | breakdown =>
    exact .inl ⟨rfl, nofun⟩

/-! ## 2. Jobs are watched -/

/-- **Each job in progress is waited for or was given up**, and none is there twice. -/
structure Watched (past : List Moment) (e : Engine) : Prop where
  ids : (e.jobs.map (·.id)).Nodup
  watched : ∀ job ∈ e.jobs, job.id ∈ givenUpIn past ∨ ∃ i b, e.At i (.analysing b job.id)

theorem Watched.step (w : Watched past e) (known : ∀ job ∈ e.jobs, job.id < e.jobCount)
    (hs : e.step? a = some e') : Watched (⟨e, a⟩ :: past) e' := by
  -- a job that was there is watched unless it is the one that has just ended
  have goesOn : ∀ job ∈ e.jobs, (∀ outcome, a ≠ .endJob job.id outcome) →
      job.id ∈ givenUpIn (⟨e, a⟩ :: past) ∨ ∃ i b, e'.At i (.analysing b job.id) := by
    intro job there runs
    rw [mem_givenUpIn_cons]
    rcases w.watched job there with given | ⟨i, b, waits⟩
    · exact .inl (.inr given)
    · rcases waits_of_step hs waits with still | given | ⟨outcome, ended⟩
      · exact .inr ⟨i, b, still⟩
      · exact .inl (.inl given)
      · exact absurd ended (runs outcome)
  rcases jobs_of_step hs with
    ⟨same, runs⟩ | ⟨i, b, text, rfl, -, waits, more⟩ | ⟨id, outcome, rfl, fewer⟩
  · refine ⟨same ▸ w.ids, fun job there => ?_⟩
    exact goesOn job (same ▸ there) (runs job.id)
  · refine ⟨?_, fun job there => ?_⟩
    · -- the number of the new job is not used yet
      have fresh : e.jobCount ∉ e.jobs.map (·.id) := by
        intro used
        obtain ⟨job, there, same⟩ := List.mem_map.mp used
        exact absurd (known job there) (by omega)
      rw [more, List.map_append, List.nodup_append]
      refine ⟨w.ids, List.pairwise_singleton _ _, fun x old y new => ?_⟩
      cases List.mem_singleton.mp new
      rintro rfl
      exact fresh old
    · rw [more] at there
      rcases List.mem_append.mp there with old | new
      · exact goesOn job old nofun
      · cases List.mem_singleton.mp new
        exact .inr ⟨i, b, waits⟩
  · refine ⟨fewer ▸ (w.ids.sublist (List.filter_sublist.map _)), fun job there => ?_⟩
    rw [fewer] at there
    obtain ⟨old, other⟩ := List.mem_filter.mp there
    refine goesOn job old fun outcome ended => ?_
    cases ended
    simp at other

section Runs

variable {settings : Settings} {store : InsightStore} {isAdvised : Bool} {bus : EventBus}

theorem Run.watched (run : Run (built settings store isAdvised bus) past e) : Watched past e := by
  induction run with
  | start => exact ⟨List.nodup_nil, fun job there => by cases there⟩
  | step run hs ih => exact ih.step run.known hs

/-- Only one job is waited for. -/
theorem OneInSlot.awaited_unique (one : e.OneInSlot) {i j id id' : Nat} {b c : Assignment}
    (h : e.At i (.analysing b id)) (h' : e.At j (.analysing c id')) : id = id' := by
  cases one i j _ _ h h' rfl rfl
  cases h.unique h'
  rfl

/-! ## 3. Jobs in progress -/

/-- **What is known of the jobs in progress.** -/
structure JobsInProgress (settings : Settings) (past : List Moment) (e : Engine) : Prop where
  /-- A worker waits for each job that was not given up, and there is one such job at most. -/
  awaited : ∀ job ∈ e.jobs, job.id ∉ givenUpIn past → ∃ i b, e.At i (.analysing b job.id)
  one : (e.jobs.filter fun job => decide (job.id ∉ givenUpIn past)).length ≤ 1
  few : e.jobs.length ≤ (givenUpIn past).length + 1
  /-- When a job begins, all jobs in progress were given up before. -/
  begun : ∀ later m before, past = later ++ m :: before → m.read? ≠ none →
    ∀ job ∈ m.engine.jobs, job.id ∈ givenUpIn before
  /-- A job that is given up goes on. -/
  goesOn : ∀ m ∈ past, ∀ id, m.gaveUp? = some id → ∃ job ∈ m.after.jobs, job.id = id
  /-- No job is given up if an analysis may take as long as it likes; then one job is in progress at
      most, and a job begins only when no other is. -/
  alone : settings.analysisTimeout = none → e.jobs.length ≤ 1 ∧
    ∀ m ∈ past, m.read? ≠ none → m.engine.jobs = []

theorem Watched.awaited (w : Watched past e) {job : Job} (there : job ∈ e.jobs)
    (kept : job.id ∉ givenUpIn past) : ∃ i b, e.At i (.analysing b job.id) := by
  rcases w.watched job there with given | waits
  · exact absurd given kept
  · exact waits

theorem Watched.eq_of_id (w : Watched past e) {job job' : Job} (h : job ∈ e.jobs)
    (h' : job' ∈ e.jobs) (same : job.id = job'.id) : job = job' :=
  List.inj_on_of_nodup_map w.ids h h' same

/-- One job at most was not given up. -/
theorem Watched.one (w : Watched past e) (slot : e.OneInSlot) :
    (e.jobs.filter fun job => decide (job.id ∉ givenUpIn past)).length ≤ 1 := by
  refine length_le_one_of_nodup ((List.Nodup.of_map _ w.ids).sublist List.filter_sublist) ?_
  intro job h job' h'
  obtain ⟨there, kept⟩ := List.mem_filter.mp h
  obtain ⟨there', kept'⟩ := List.mem_filter.mp h'
  obtain ⟨i, b, waits⟩ := w.awaited there (of_decide_eq_true kept)
  obtain ⟨j, c, waits'⟩ := w.awaited there' (of_decide_eq_true kept')
  exact w.eq_of_id there there' (slot.awaited_unique waits waits')

theorem Watched.few (w : Watched past e) (slot : e.OneInSlot) :
    e.jobs.length ≤ (givenUpIn past).length + 1 := by
  have given : (e.jobs.filter fun job => !decide (job.id ∉ givenUpIn past)).length ≤
      (givenUpIn past).length := by
    rw [← List.length_map (·.id)]
    refine (List.Nodup.subperm (w.ids.sublist (List.filter_sublist.map _)) ?_).length_le
    intro id h
    obtain ⟨job, there, rfl⟩ := List.mem_map.mp h
    simpa using (List.mem_filter.mp there).2
  have one := w.one slot
  have all := List.length_eq_length_filter_add (l := e.jobs)
    fun job => decide (job.id ∉ givenUpIn past)
  omega

/-- A job begins for a worker that is reading. -/
theorem reading_of_read (hs : e.step? a = some e') (read : (Moment.mk e a).read? ≠ none) :
    ∃ i b, e.At i (.reading b) := by
  unfold Moment.read? at read
  split at read
  · rename_i i text ha
    cases ha
    cases effect_of_step hs with
    | aside ha => cases ha
    | content h => exact ⟨i, _, h⟩
    | breakdown _ _ unsound => cases unsound
  · exact absurd rfl read

/-- A worker gives a job up while it waits for it, and leaves the jobs alone. -/
theorem of_gaveUp? (hs : e.step? a = some e') {id : Nat}
    (gave : (Moment.mk e a).gaveUp? = some id) :
    (∃ i b, e.At i (.analysing b id)) ∧ e'.jobs = e.jobs ∧ e.settings.analysisTimeout ≠ none := by
  unfold Moment.gaveUp? at gave
  split at gave
  · rename_i i ha
    cases ha
    split at gave
    · rename_i b job hp
      cases gave
      obtain ⟨w, hw, hp'⟩ := at_iff.mp hp
      simp only [step?, hw, Option.bind_some, workerStep?, hp'] at hs
      obtain ⟨after, timed, rfl⟩ := Option.map_eq_some_iff.mp hs
      refine ⟨⟨i, b, hp⟩, ?_, by simp [timed]⟩
      rw [fail, log_eq]
      rfl
    · cases gave
  · cases gave

/-- When a job begins, all jobs in progress were given up before. -/
theorem Run.given_of_read (run : Run (built settings store isAdvised bus) past e)
    (hs : e.step? a = some e') (read : (Moment.mk e a).read? ≠ none) :
    ∀ job ∈ e.jobs, job.id ∈ givenUpIn past := by
  intro job there
  obtain ⟨i, b, reading⟩ := reading_of_read hs read
  rcases run.watched.watched job there with given | ⟨j, c, waits⟩
  · exact given
  · -- the worker that reads is the one in the slot
    cases run.oneInSlot i j _ _ reading waits rfl rfl
    cases reading.unique waits

/-- No job is given up if an analysis may take as long as it likes. -/
theorem Run.givenUpIn_eq_nil (run : Run (built settings store isAdvised bus) past e)
    (endless : settings.analysisTimeout = none) : givenUpIn past = [] := by
  induction run with
  | start => rfl
  | @step past e e' a run hs ih =>
    refine List.eq_nil_iff_forall_not_mem.mpr fun id given => ?_
    rcases mem_givenUpIn_cons.mp given with gave | before
    · obtain ⟨-, -, limited⟩ := of_gaveUp? hs gave
      rw [run.settings_eq] at limited
      exact limited endless
    · rw [ih] at before
      cases before

/-- **Of the jobs in progress one at most was not given up**, in every run. -/
theorem Run.jobs_inProgress (run : Run (built settings store isAdvised bus) past e) :
    JobsInProgress settings past e where
  awaited _ there kept := run.watched.awaited there kept
  one := run.watched.one run.oneInSlot
  few := run.watched.few run.oneInSlot
  begun later m before split read := by
    subst split
    obtain ⟨e₁, first, hs, -⟩ := run.cut
    exact first.given_of_read hs read
  goesOn m hm id gave := by
    obtain ⟨later, before, rfl⟩ := List.append_of_mem hm
    obtain ⟨e₁, first, hs, -⟩ := run.cut
    obtain ⟨⟨i, b, waits⟩, same, -⟩ := of_gaveUp? hs gave
    obtain ⟨-, -, there, -⟩ := soFar_course.hand first waits rfl
    have after : m.after = e₁ := after_of_step hs
    rw [after, same]
    exact there
  alone endless := by
    have none' := run.givenUpIn_eq_nil endless
    have few := run.watched.few run.oneInSlot
    rw [none'] at few
    refine ⟨few, fun m hm read => ?_⟩
    obtain ⟨later, before, rfl⟩ := List.append_of_mem hm
    obtain ⟨e₁, first, hs, -⟩ := run.cut
    refine List.eq_nil_iff_forall_not_mem.mpr fun job there => ?_
    have given := first.given_of_read hs read job there
    rw [first.givenUpIn_eq_nil endless] at given
    cases given

/-- Two files are to be analysed, and the worker gives the first job up. -/
def givenUpOnce : List Action :=
  [.request "a.ts" .medium .full, .request "b.ts" .medium .full, .start, .worker 0 .enterSlot,
    .worker 0 .look, .worker 0 .take, .worker 0 (.endReading (.content "")),
    .worker 0 .runOutOfTime, .worker 0 .refuse, .worker 0 .report, .worker 0 .finish,
    .worker 0 .restOver, .worker 0 .look, .worker 0 .take, .worker 0 (.endReading (.content ""))]

/-- The settings in which an analysis may take a fifth of a second. -/
def hurried : Settings := { analysisTimeout := some 200 }

theorem jobs_inProgress_givenUpOnce :
    ∃ past e, Run (built hurried (.memory .empty) false {}) past e ∧
      givenUpIn past = [0] ∧ JobsInProgress hurried past e := by
  obtain ⟨⟨past, e⟩, ht, given⟩ := Option.map_eq_some_iff.mp (show
    (trace? givenUpOnce ([], built hurried (.memory .empty) false {})).map
      (givenUpIn ·.1) = some [0] by decide)
  have run := Run.start.of_trace? ht
  exact ⟨past, e, run, given, run.jobs_inProgress⟩

/-- **Two files may be analysed at once**: the job that was given up is still in progress when the
    next one begins. -/
theorem jobs_atOnce :
    ∃ past e, Run (built hurried (.memory .empty) false {}) past e ∧
      e.jobs.map (·.path) = ["a.ts", "b.ts"] := by
  obtain ⟨⟨past, e⟩, ht, both⟩ := Option.map_eq_some_iff.mp (show
    (trace? givenUpOnce ([], built hurried (.memory .empty) false {})).map
      (·.2.jobs.map (·.path)) = some ["a.ts", "b.ts"] by decide)
  exact ⟨past, e, Run.start.of_trace? ht, both⟩

end Runs

end Engine

end CodeInsight
