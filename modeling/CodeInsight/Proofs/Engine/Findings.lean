import CodeInsight.Proofs.Engine.Status
import Mathlib.Data.List.TakeWhile

/-!
# What is found in files

* `foundIn` is what is found in a file, identities and times apart; it depends on the limits and on
  the file, and on nothing else;
* a moment is `Undisturbed` if no collaborator breaks down in it, nothing is loaded or cleared, and
  files are read and outlined as they are;
* how far a worker has come with its task says what it has found (`Bears`, `bears_course`), so each
  entry of the cache is what is found in its file (`Run.of_entry`);
* a task that is done with has left an entry (`Run.entry_of_ended`), and of the tasks for one path
  the latest never had to give way (`Run.exists_lasting`);
* so **a quiet engine has what is found in each file that was asked for, and nothing else**
  (`Run.entry_of_isQuiet`).
-/

namespace CodeInsight

/-- What the reading of each file ends with, whenever it is read. -/
abbrev Readings := String → Except FileFault String

/-- How the reading of a file ends. -/
def ReadOutcome.ofReading : Except FileFault String → ReadOutcome
  | .ok text => content text
  | .error cause => fault cause

deriving instance DecidableEq for JobOutcome

/-- **What is found in a file**, identities and times apart: nothing if it cannot be read or has no
    outline. -/
def foundIn (thresholds : Thresholds) (files : Readings) (path : String) : List Finding :=
  match files path with
  | .error _ => []
  | .ok content =>
    match Outline.ofSource path content with
    | .error _ => []
    | .ok outline => (Analysis.run thresholds path content outline).findings

namespace Moment

/-- Whether a file is read as it is, if one is read. -/
def readsFile (files : Readings) (m : Moment) : Bool :=
  match m.action with
  | .worker _ (.endReading outcome) => m.hand?.all fun b => outcome = .ofReading (files b.path)
  | _ => true

/-- Whether a job ends with the outline of its content, or why it has none, if one ends. -/
def outlinesContent (m : Moment) : Bool :=
  match m.action with
  | .endJob id outcome =>
    m.engine.jobs.all fun job => job.id = id → outcome = .ofSource job.path job.content
  | _ => true

end Moment

/-- **A moment in which nobody interferes**: no collaborator breaks down, nothing is loaded or
    cleared, and files are read and outlined as they are. -/
structure Undisturbed (files : Readings) (m : Moment) : Prop where
  sound : m.action.isSound = true
  unloaded : m.action.isLoad = false
  uncleared : m.action.isClear = false
  /-- A task gives way only to a request that is answered. -/
  answered : m.replaced?.isSome = true → m.asked?.isSome = true
  read : m.readsFile files = true
  outlined : m.outlinesContent = true

theorem undisturbed_iff {files : Readings} {m : Moment} :
    Undisturbed files m ↔ m.action.isSound = true ∧ m.action.isLoad = false ∧
      m.action.isClear = false ∧ (m.replaced?.isSome = true → m.asked?.isSome = true) ∧
        m.readsFile files = true ∧ m.outlinesContent = true :=
  ⟨fun ⟨a, b, c, d, e, f⟩ => ⟨a, b, c, d, e, f⟩, fun ⟨a, b, c, d, e, f⟩ => ⟨a, b, c, d, e, f⟩⟩

instance (files : Readings) (m : Moment) : Decidable (Undisturbed files m) :=
  decidable_of_iff _ undisturbed_iff.symm

/-- The paths for which an analysis was asked for. -/
def askedPaths (past : List Moment) : List String := (askedIn past).map (·.path)

/-! ## 1. Reading and outlining -/

section Moment

variable {files : Readings} {e : Engine}

theorem content_eq_ofReading {text : String} {reading : Except FileFault String}
    (h : ReadOutcome.content text = .ofReading reading) : reading = .ok text := by
  cases reading with
  | ok => cases h; rfl
  | error => cases h

theorem fault_eq_ofReading {cause : FileFault} {reading : Except FileFault String}
    (h : ReadOutcome.fault cause = .ofReading reading) : reading = .error cause := by
  cases reading with
  | ok => cases h
  | error => cases h; rfl

theorem outline_eq_ofSource {path content : String} {o : Outline}
    (h : JobOutcome.outline o = .ofSource path content) :
    Outline.ofSource path content = .ok o := by
  unfold JobOutcome.ofSource at h
  split at h
  · rename_i o' parsed
    cases h
    exact parsed
  · cases h

theorem error_of_ne_outline {path content : String}
    (h : ∀ o, JobOutcome.ofSource path content ≠ .outline o) :
    ∃ cause, Outline.ofSource path content = .error cause := by
  unfold JobOutcome.ofSource at h
  split at h
  · exact absurd rfl (h _)
  · exact ⟨_, ‹_›⟩

/-- What is read in an undisturbed moment is the file of the task in hand. -/
theorem Undisturbed.reading {i : Nat} {outcome : ReadOutcome} {b : Assignment}
    (u : Undisturbed files ⟨e, .worker i (.endReading outcome)⟩)
    (worked : (Moment.mk e (.worker i (.endReading outcome))).hand? = some b) :
    outcome = .ofReading (files b.path) := by
  have read := u.read
  simp only [Moment.readsFile, worked, Option.all_some] at read
  exact of_decide_eq_true read

/-- What a job ends with in an undisturbed moment is what its content has. -/
theorem Undisturbed.outlining {id : Nat} {outcome : JobOutcome} {job : Job}
    (u : Undisturbed files ⟨e, .endJob id outcome⟩) (there : job ∈ e.jobs) (hid : job.id = id) :
    outcome = .ofSource job.path job.content := by
  have outlined := List.all_eq_true.mp u.outlined job there
  exact of_decide_eq_true outlined hid

theorem foundIn_of_error {thresholds : Thresholds} {path : String} {cause : FileFault}
    (read : files path = .error cause) : foundIn thresholds files path = [] := by
  rw [foundIn, read]

theorem foundIn_of_unparsable {thresholds : Thresholds} {path content : String}
    {cause : SourceError} (read : files path = .ok content)
    (parsed : Outline.ofSource path content = .error cause) :
    foundIn thresholds files path = [] := by
  simp only [foundIn, read, parsed]

theorem foundIn_of_outline {thresholds : Thresholds} {path content : String} {o : Outline}
    (read : files path = .ok content) (parsed : Outline.ofSource path content = .ok o) :
    foundIn thresholds files path = (Analysis.run thresholds path content o).findings := by
  simp only [foundIn, read, parsed]

end Moment

namespace Engine

/-! ## 2. What a worker has found -/

/-- How far a worker has come with its task says what it has found, as long as it has not written
    that into the cache. -/
def Bears (thresholds : Thresholds) (files : Readings) (jobs : List Job) (path : String) :
    Phase → Prop
  | .analysing _ id => ∀ job ∈ jobs, job.id = id → job.path = path ∧ files path = .ok job.content
  | .announcing _ r _ => findings r.insights = foundIn thresholds files path
  | .refusing _ _ => foundIn thresholds files path = []
  | _ => True

section Step

variable {files : Readings} {thresholds : Thresholds} {e e' : Engine} {a : Action}

/-- A worker runs out of time only if an analysis may not take as long as it likes. -/
theorem timed_of_runOutOfTime {i : Nat} (hs : e.step? (.worker i .runOutOfTime) = some e') :
    e.settings.analysisTimeout ≠ none := by
  intro endless
  obtain ⟨w, hw, hs⟩ := Option.bind_eq_some_iff.mp hs
  unfold workerStep? at hs
  split at hs <;> simp_all

/-- A job that ends is in progress. -/
theorem exists_job_of_endJob {id : Nat} {outcome : JobOutcome}
    (hs : e.step? (.endJob id outcome) = some e') : ∃ job ∈ e.jobs, job.id = id := by
  obtain ⟨job, found, -⟩ := Option.map_eq_some_iff.mp hs
  exact ⟨job, List.mem_of_find?_eq_some found, by simpa using List.find?_some found⟩

/-- A worker whose job ends with an outline goes on to tell of it. -/
theorem announcing_of_outline {id i : Nat} {o : Outline} {b : Assignment}
    (hs : e.step? (.endJob id (.outline o)) = some e') (waits : e.waiter? id = some (i, b)) :
    ∃ r, e'.At i (.announcing b r r.signals) := by
  obtain ⟨job, found, rfl⟩ := Option.map_eq_some_iff.mp hs
  have hid : job.id = id := by simpa using List.find?_some found
  subst hid
  unfold endJob
  dsimp only
  split
  · rename_i nobody
    exact absurd (waits.symm.trans nobody) nofun
  · rename_i j c waits'
    cases waits.symm.trans waits'
    exact ⟨_, at_moved (phases_move _ _ _) (at_of_waiter? waits)⟩

/-- **A step on a task goes on with what is found in its file.** -/
theorem bears_step {b : Assignment} (hs : e.step? a = some e')
    (worked : (Moment.mk e a).hand? = some b) (limits : e.settings.thresholds = thresholds)
    (endless : e.settings.analysisTimeout = none) (known : ∀ job ∈ e.jobs, job.id < e.jobCount)
    (u : Undisturbed files ⟨e, a⟩)
    (so : ∀ i p, e.At i p → p.assignment? = some b → Bears thresholds files e.jobs b.path p) :
    ∃ i p, e.hand? i = some b ∧ e'.phases = e.phases.set i p ∧
      Bears thresholds files e'.jobs b.path p := by
  have goOn := @goes_on e e' a (fun c p => Bears thresholds files e.jobs c.path p)
    (fun c p => Bears thresholds files e'.jobs c.path p) b worked so
  cases effect_of_step hs with
  | aside _ idle _ _ => rw [idle] at worked; cases worked
  | takeNothing h _ => rw [worked_of_at h] at worked; cases worked
  | take h _ => rw [worked_of_at h] at worked; cases worked
  | jobLost nobody => simp [Moment.hand?, nobody] at worked
  | request | requestBreaksOff | clear | loadBegins | loadAnswered | loadCached | loadNotCached =>
    cases worked
  | @content i c text h =>
    have read := content_eq_ofReading (u.reading (worked_of_at h))
    refine goOn h rfl (worked_of_at h) (phases_move _ _ _) fun _ job there hid => ?_
    -- the new job is the only one with its number
    rcases List.mem_append.mp there with old | new
    · have := known job old
      omega
    · cases List.mem_singleton.mp new
      exact ⟨rfl, read⟩
  | @unreadable i c cause fault _ h =>
    have read := fault_eq_ofReading (u.reading (worked_of_at h))
    exact goOn h rfl (worked_of_at h) (phases_move _ _ _) fun _ => foundIn_of_error read
  | outOfTime => exact absurd endless (timed_of_runOutOfTime hs)
  | announce h =>
    exact goOn h rfl (worked_of_at h) (phases_move _ _ _) id
  | @close i c r current _ _ h =>
    cases current with
    | true => exact goOn h rfl (worked_of_at h) (phases_move _ _ _) fun _ => trivial
    | false => exact goOn h rfl (worked_of_at h) (phases_move _ _ _) fun _ => trivial
  | cached h | notCached h | advise h | saved h | notSaved h | emptied h | notEmptied h
  | report h =>
    exact goOn h rfl (worked_of_at h) (phases_move _ _ _) fun _ => trivial
  | breakdown _ _ unsound =>
    have sound := u.sound
    rw [unsound] at sound
    cases sound
  | @analysed id i c job o there hid waits =>
    have parsed := outline_eq_ofSource (u.outlining there hid)
    refine goOn (at_of_waiter? waits) rfl (by simp [Moment.hand?, waits]) (phases_move _ _ _) ?_
    intro only
    obtain ⟨path, read⟩ := only job there hid
    rw [path] at parsed
    have marked : findings (e.analyse job o).1.insights =
        (Analysis.run e.settings.thresholds job.path job.content o).findings := findings_mark _ _
    rw [Bears, marked, foundIn_of_outline read parsed, limits, path]
  | @notAnalysed id i c outcome fault _ waits =>
    obtain ⟨job, there, hid⟩ := exists_job_of_endJob hs
    have ends := u.outlining there hid
    refine goOn (at_of_waiter? waits) rfl (by simp [Moment.hand?, waits]) (phases_move _ _ _) ?_
    intro only
    obtain ⟨path, read⟩ := only job there hid
    rw [path] at ends
    obtain ⟨cause, parsed⟩ := error_of_ne_outline fun o outlined => by
      -- a worker with an outline would not refuse
      rw [ends, outlined] at hs
      obtain ⟨r, announcing⟩ := announcing_of_outline hs waits
      cases announcing.unique (at_moved (phases_move _ _ _) (at_of_waiter? waits))
    exact foundIn_of_unparsable read parsed

end Step

section Run

variable {settings : Settings} {store : InsightStore} {isAdvised : Bool} {bus : EventBus}
variable {files : Readings} {past : List Moment} {e : Engine}

/-- **What a worker has found is a course**, as long as nobody interferes. -/
theorem bears_course (endless : settings.analysisTimeout = none) :
    Course settings store isAdvised bus fun e b p work => (∀ m ∈ work, Undisturbed files m) →
      Bears settings.thresholds files e.jobs b.path p where
  fresh _ _ _ := trivial
  idle {e e' a i p b work} hs idle h so undisturbed := by
    have bears := so undisturbed
    rcases jobs_of_idle hs idle with same | ⟨id, nobody, fewer⟩
    · rw [same]
      exact bears
    · cases p with
      | analysing c own =>
        intro job there
        rw [fewer] at there
        exact bears job (List.mem_filter.mp there).1
      | _ => exact bears
  work {past e e' a b} h hs worked so := by
    by_cases undisturbed : ∀ m ∈ (⟨e, a⟩ :: workOn past b.task : List Moment), Undisturbed files m
    · obtain ⟨now, before⟩ := List.forall_mem_cons.mp undisturbed
      have settled := h.settings_eq
      obtain ⟨i, p, hb, moved, bears⟩ := bears_step hs worked (by rw [settled])
        (by rw [settled]; exact endless) h.known now fun i p hp hb => so i p hp hb before
      exact ⟨i, p, hb, moved, fun _ => bears⟩
    · -- the worker moves all the same, and nothing is claimed of what it has found
      obtain ⟨i, p₀, p, hp₀, hb, moved, -⟩ := (effect_of_step hs).walk.of_worked worked
      exact ⟨i, p, (hand?_of_at hp₀).trans hb, moved, fun all => absurd all undisturbed⟩

theorem Run.bears (h : Run (built settings store isAdvised bus) past e)
    (endless : settings.analysisTimeout = none) (undisturbed : ∀ m ∈ past, Undisturbed files m)
    {i : Nat} {p : Phase} {b : Assignment} (hp : e.At i p) (hb : p.assignment? = some b) :
    Bears settings.thresholds files e.jobs b.path p :=
  (bears_course endless).hand h hp hb fun m hm => undisturbed m (of_mem_workOn hm).1

end Run

/-! ## 3. What is written -/

/-- Who writes, where nothing is loaded, is a worker that has told of all intents, and writes its
    insights, or one whose analysis has failed, and writes none. -/
theorem writer_of_wrote? {e : Engine} {a : Action} {path : String} {insights : List Insight}
    (unloaded : e.loads = []) (h : (Moment.mk e a).wrote? = some (path, insights)) :
    ∃ i p b, e.At i p ∧ p.assignment? = some b ∧ b.path = path ∧
      ((∃ r, p = .announcing b r [] ∧ insights = r.insights) ∨
        ∃ fault, p = .refusing b fault ∧ insights = []) := by
  unfold Moment.wrote? at h
  split at h
  · rename_i i ha
    split at h
    · rename_i b r at'
      split at h
      · cases h
        exact ⟨i, _, b, at', rfl, rfl, .inl ⟨r, rfl, rfl⟩⟩
      · cases h
    · cases h
  · rename_i i ha
    split at h
    · rename_i b fault at'
      split at h
      · cases h
        exact ⟨i, _, b, at', rfl, rfl, .inr ⟨fault, rfl, rfl⟩⟩
      · cases h
    · cases h
  · rename_i k ha
    simp [unloaded] at h
  · cases h

section Run

variable {settings : Settings} {store : InsightStore} {isAdvised : Bool} {bus : EventBus}
variable {files : Readings} {past : List Moment} {e : Engine} {path : String} {t : Task}

/-- As long as the cache is not cleared, it has an entry for each path that was written for. -/
theorem Run.entry_iff_wrote (h : Run (built settings store isAdvised bus) past e)
    (uncleared : ∀ m ∈ past, m.action.isClear = false) :
    e.cache.get? path ≠ none ↔ ∃ m ∈ past, m.wroteFor? path ≠ none := by
  have all : sinceClear past = past :=
    List.takeWhile_eq_self_iff.mpr fun m hm => by simp [uncleared m hm]
  rw [h.entry_eq, all]
  simp

/-- **Each entry of the cache is what is found in its file**, and the file was asked for. -/
theorem Run.of_entry (h : Run (built settings store isAdvised bus) past e)
    (endless : settings.analysisTimeout = none) (undisturbed : ∀ m ∈ past, Undisturbed files m)
    {insights : List Insight} (entry : e.cache.get? path = some insights) :
    findings insights = foundIn settings.thresholds files path ∧ path ∈ askedPaths past := by
  rw [h.entry_eq] at entry
  obtain ⟨m, since, written⟩ := List.exists_of_findSome?_eq_some entry
  obtain ⟨later, before, rfl⟩ := List.append_of_mem (List.takeWhile_subset _ since)
  obtain ⟨e₁, till, hs, -⟩ := h.cut
  have early : ∀ m' ∈ before, Undisturbed files m' := fun m' hm' =>
    undisturbed m' (List.mem_append_right _ (List.mem_cons_of_mem _ hm'))
  have unloaded := till.loads_eq_nil fun m' hm' => (early m' hm').unloaded
  obtain ⟨i, p, b, hp, hb, rfl, own⟩ := writer_of_wrote? unloaded (wrote?_of_wroteFor? written)
  have bears := till.bears endless early hp hb
  constructor
  · rcases own with ⟨r, rfl, rfl⟩ | ⟨fault, rfl, rfl⟩
    · exact bears
    · exact Eq.symm bears
  · have taken := till.mem_takenIn_of_hand ((hand?_of_at hp).trans hb)
    refine List.mem_map.mpr ⟨b.task, ?_, rfl⟩
    rw [askedIn_append, askedIn_cons]
    exact List.mem_append_right _ (List.mem_append_right _
      (till.asked_of_account (.inr (.inr taken))))

/-- **A task that is done with has left an entry.** -/
theorem Run.entry_of_ended (h : Run (built settings store isAdvised bus) past e)
    (undisturbed : ∀ m ∈ past, Undisturbed files m) (ended : t ∈ endedIn past) :
    e.cache.get? t.path ≠ none := by
  obtain ⟨event, one, path⟩ := h.endsOnce (fun m hm => (undisturbed m hm).sound) ended
  have ends : event ∈ (toldOf past t).filter Event.isTerminal := by
    rw [one]
    exact List.mem_singleton_self event
  obtain ⟨told, terminal⟩ := List.mem_filter.mp ends
  obtain ⟨m, hm, now⟩ := List.mem_flatMap.mp told
  obtain ⟨there, -⟩ := of_mem_workOn (List.mem_reverse.mp hm)
  have uncleared : ∀ m ∈ past, m.action.isClear = false := fun m hm => (undisturbed m hm).uncleared
  rw [h.entry_iff_wrote uncleared]
  obtain ⟨later, before, rfl⟩ := List.append_of_mem there
  obtain ⟨e₁, till, hs, -⟩ := h.cut
  have early : ∀ m' ∈ before, m' ∈ later ++ m :: before := fun m' hm' =>
    List.mem_append_right _ (List.mem_cons_of_mem _ hm')
  obtain ⟨i, p, b, -, hp, hb, -, about, written, -⟩ := ending_of_told hs now terminal
  -- nothing was cleared, so the worker was in time when it wrote
  have current : b.epoch = m.engine.epoch := by
    refine Decidable.not_not.mp fun late => ?_
    obtain ⟨newer, c, older, rfl, clear, -⟩ :=
      (till.epoch_ne_iff ((hand?_of_at hp).trans hb)).mp late
    have kept := uncleared c (early c (List.mem_append_right _ List.mem_cons_self))
    exact absurd (kept.symm.trans clear) nofun
  have settled := till.settled (fun m' hm' => (undisturbed m' (early m' hm')).unloaded) hp hb
  have entry : m.engine.cache.get? t.path ≠ none := by
    rw [← path, about, settled.current current _ written]
    exact nofun
  obtain ⟨m', hm', wrote⟩ :=
    (till.entry_iff_wrote fun m' hm' => uncleared m' (early m' hm')).mp entry
  exact ⟨m', early m' hm', wrote⟩

end Run

/-! ## 4. Whether an entry is there -/

/-- The task asked for is for the path of the request, and so is the one that gives way to it. -/
theorem path_of_replaced {m : Moment} {s t : Task} (asked : m.asked? = some s)
    (replaced : m.replaced? = some t) : t.path = s.path := by
  unfold Moment.replaced? at replaced
  split at replaced
  · rename_i path priority kind ha
    unfold Moment.asked? at asked
    simp only [ha] at asked
    split at asked
    · cases asked
      exact (TaskQueue.of_find? replaced).2
    · cases asked
  · cases replaced

/-- Nothing is dropped unless the cache is cleared. -/
theorem droppedIn_eq_nil {past : List Moment}
    (uncleared : ∀ m ∈ past, m.action.isClear = false) : droppedIn past = [] := by
  refine List.eq_nil_iff_forall_not_mem.mpr fun t dropped => ?_
  obtain ⟨m, hm, cleared, -⟩ := mem_droppedIn.mp dropped
  have kept := uncleared m hm
  rw [cleared] at kept
  cases kept

/-- What gives way waits. -/
theorem waits_of_replaced {m : Moment} {t : Task} (replaced : m.replaced? = some t) :
    t ∈ m.engine.queue.tasks := by
  unfold Moment.replaced? at replaced
  split at replaced
  · exact (TaskQueue.of_find? replaced).1
  · cases replaced

section Run

variable {settings : Settings} {store : InsightStore} {isAdvised : Bool} {bus : EventBus}
variable {files : Readings} {past : List Moment} {e : Engine} {path : String}

/-- **Of the tasks for one path the latest never had to give way.** -/
theorem Run.exists_lasting (h : Run (built settings store isAdvised bus) past e)
    (answered : ∀ m ∈ past, m.replaced?.isSome = true → m.asked?.isSome = true)
    (asked : path ∈ askedPaths past) : ∃ t ∈ askedIn past, t.path = path ∧ t ∉ replacedIn past := by
  induction h with
  | start => cases asked
  | @step past e e' a h hs ih =>
    obtain ⟨own, before⟩ := List.forall_mem_cons.mp answered
    have next := h.step hs
    simp only [askedPaths, askedIn_cons] at asked
    simp only [askedIn_cons, replacedIn_cons]
    cases now : (Moment.mk e a).asked? with
    | none =>
      have kept : (Moment.mk e a).replaced? = none := by
        cases replaced : (Moment.mk e a).replaced? with
        | none => rfl
        | some t => simp [replaced, now] at own
      rw [now] at asked
      rw [kept]
      exact ih before asked
    | some s =>
      have once := next.askedIn_nodup
      rw [askedIn_cons, now] at once
      have fresh : s ∉ askedIn past := (List.nodup_cons.mp once).1
      by_cases mine : s.path = path
      · -- the task just asked for is the latest for the path, and nothing has replaced it yet
        refine ⟨s, List.mem_cons_self, mine, fun replaced => ?_⟩
        rcases List.mem_append.mp replaced with gone | gone
        · have found := Option.mem_toList.mp gone
          exact fresh (h.asked_of_account (.inl (waits_of_replaced found)))
        · exact fresh (h.asked_of_account (.inr (.inl gone)))
      · rw [now] at asked
        have earlier : path ∈ askedPaths past := by
          rcases List.mem_cons.mp asked with same | earlier
          · exact absurd same.symm mine
          · exact earlier
        obtain ⟨t, there, about, lasts⟩ := ih before earlier
        refine ⟨t, List.mem_cons_of_mem _ there, about, fun replaced => ?_⟩
        rcases List.mem_append.mp replaced with gone | gone
        · exact mine ((path_of_replaced now (Option.mem_toList.mp gone)).symm.trans about)
        · exact lasts gone

/-- **A quiet engine has nothing left to do.** -/
theorem Run.nothingLeft_of_isQuiet (h : Run (built settings store isAdvised bus) past e)
    (sound : ∀ m ∈ past, m.action.isSound = true) (quiet : e.isQuiet = true) :
    NothingLeft past e := by
  obtain ⟨empty, idle⟩ := Bool.and_eq_true_iff.mp quiet
  cases h.attends sound with
  | idle _ _ nobody => exact h.nothingLeft sound (List.isEmpty_iff.mp empty) nobody
  | busy _ _ _ loop =>
    rw [loop] at idle
    cases idle

/-- A task that never had to give way is done with once the engine is quiet. -/
theorem Run.ended_of_lasting (h : Run (built settings store isAdvised bus) past e)
    (undisturbed : ∀ m ∈ past, Undisturbed files m) (quiet : e.isQuiet = true) {t : Task}
    (asked : t ∈ askedIn past) (lasts : t ∉ replacedIn past) : t ∈ endedIn past := by
  have left := h.nothingLeft_of_isQuiet (fun m hm => (undisturbed m hm).sound) quiet
  obtain ⟨situation, is⟩ := h.exists_situation asked
  cases situation with
  | waiting =>
    have there : t ∈ e.queue.tasks := is
    rw [left.waiting] at there
    cases there
  | inHand i => exact absurd is (left.handled i t).1
  | replaced => exact absurd (mem_replacedIn.mpr is) lasts
  | dropped =>
    have there := mem_droppedIn.mpr is
    rw [droppedIn_eq_nil fun m hm => (undisturbed m hm).uncleared] at there
    cases there
  | finished => exact is

/-- **A quiet engine has what is found in each file that was asked for, and nothing else.** -/
theorem Run.entry_of_isQuiet (h : Run (built settings store isAdvised bus) past e)
    (endless : settings.analysisTimeout = none) (undisturbed : ∀ m ∈ past, Undisturbed files m)
    (quiet : e.isQuiet = true) (path : String) :
    (e.cache.get? path).map findings =
      if path ∈ askedPaths past then some (foundIn settings.thresholds files path) else none := by
  cases entry : e.cache.get? path with
  | some insights =>
    obtain ⟨found, asked⟩ := h.of_entry endless undisturbed entry
    rw [if_pos asked, Option.map_some, found]
  | none =>
    rw [if_neg, Option.map_none]
    intro asked
    obtain ⟨t, there, rfl, lasts⟩ :=
      h.exists_lasting (fun m hm => (undisturbed m hm).answered) asked
    exact h.entry_of_ended undisturbed (h.ended_of_lasting undisturbed quiet there lasts) entry

end Run

end Engine

end CodeInsight
