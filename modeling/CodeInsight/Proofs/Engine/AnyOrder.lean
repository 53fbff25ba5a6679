import CodeInsight.Proofs.Engine.Files
import CodeInsight.Proofs.Engine.Findings
import CodeInsight.Proofs.Engine.Stopping

/-!
# In any order

* as long as nothing was started, nobody works and nothing is told of (`Run.unstarted`), and each
  path that was asked for waits once (`Run.waiting_once`, `Run.waits_iff_asked`);
* if all was asked for before the first start, what waits then is what is told of to the end, each
  file once (`Run.ended_count`);
* so **the order does not matter** (`Run.same_results`): two runs in which the same files are asked
  for, in whatever order and however often, end with the same findings for the same files.
-/

namespace CodeInsight

/-- Whether an action asks for an analysis. -/
def Action.isRequest : Action → Bool
  | request .. => true
  | _ => false

/-- All analyses were asked for before the engine was started first. -/
def AskedFirst (past : List Moment) : Prop :=
  ∃ later before, past = later ++ before ∧ (∀ m ∈ later, m.action.isRequest = false) ∧
    ∀ m ∈ before, m.action.isStart = false

/-- **Two runs have the same results**, identities and times apart. -/
structure SameResults (past : List Moment) (e : Engine) (past' : List Moment) (e' : Engine) :
    Prop where
  /-- The caches have entries for the same paths, with the same findings in the same order. -/
  entries : ∀ path, (e.cache.get? path).map findings = (e'.cache.get? path).map findings
  /-- If all was asked for before the first start, each file that was asked for is told of to the
      end once, and no other file. -/
  once : AskedFirst past → ∀ path,
    (endedFiles e.events).count path = if path ∈ askedPaths past then 1 else 0
  once' : AskedFirst past' → ∀ path,
    (endedFiles e'.events).count path = if path ∈ askedPaths past' then 1 else 0

namespace Engine

section Run

variable {settings : Settings} {store : InsightStore} {isAdvised : Bool} {bus : EventBus}
variable {files : Readings} {past : List Moment} {e e' : Engine} {a : Action}

/-! ## 1. Before the first start -/

/-- **Before the first start** nobody works, and nothing is told of or taken. -/
theorem Run.unstarted (h : Run (built settings store isAdvised bus) past e)
    (unstarted : ∀ m ∈ past, m.action.isStart = false) :
    e.phases = [] ∧ e.events = [] ∧ takenIn past = [] := by
  induction h with
  | start => exact ⟨rfl, rfl, rfl⟩
  | @step past e e' a h hs ih =>
    obtain ⟨own, before⟩ := List.forall_mem_cons.mp unstarted
    obtain ⟨nobody, untold, untaken⟩ := ih before
    have free (i : Nat) (p : Phase) : ¬ e.At i p := by simp [At, nobody]
    refine ⟨?_, ?_, ?_⟩
    · have same := length_tokens_of_step hs own
      rw [length_tokens, length_tokens, List.map_eq_nil_iff.mp nobody] at same
      rw [phases, List.length_eq_zero_iff.mp same]
      rfl
    · rcases tells_of_step hs with same | ⟨i, s, p, event, p', rfl, at', -⟩
      · exact same.trans untold
      · exact absurd at' (free i p)
    · rw [takenIn_cons, untaken]
      cases taken : (Moment.mk e a).taken? with
      | none => rfl
      | some it =>
        obtain ⟨-, taking, -⟩ := (effect_of_step hs).walk.of_taken taken
        exact absurd taking (free it.1 _)

/-- **No file waits twice.** -/
theorem Run.waiting_once (h : Run (built settings store isAdvised bus) past e) :
    e.waitingFiles.Nodup := by
  induction h with
  | start => exact List.nodup_nil
  | @step past e e' a h hs ih =>
    have fewer (path : String) : (e.queue.remove path).2.tasks =
        e.queue.tasks.filter fun t => !(path == t.path) := eraseP_eq_filter ih path
    have once (path : String) : ((e.queue.remove path).2.tasks.map (·.path)).Nodup := by
      rw [fewer]
      exact ih.sublist (List.filter_sublist.map _)
    cases effect_of_step hs with
    | aside _ _ same => rw [waitingFiles, same.queue]; exact ih
    | take _ head =>
      rw [waitingFiles, head] at ih
      exact (List.nodup_cons.mp ih).2
    | @request path priority kind time =>
      refine (TaskQueue.paths_insert _ _).nodup_iff.mpr
        (List.nodup_cons.mpr ⟨fun there => ?_, once path⟩)
      obtain ⟨t, ht, same⟩ := List.mem_map.mp there
      rw [fewer] at ht
      have other := (List.mem_filter.mp ht).2
      have same : t.path = path := same
      simp [same] at other
    | @requestBreaksOff path => exact once path
    | clear => exact List.nodup_nil
    | _ => exact ih

/-- Before the first start a path waits exactly if it was asked for. -/
theorem Run.waits_iff_asked (h : Run (built settings store isAdvised bus) past e)
    (unstarted : ∀ m ∈ past, m.action.isStart = false)
    (undisturbed : ∀ m ∈ past, Undisturbed files m) (path : String) :
    path ∈ e.waitingFiles ↔ path ∈ askedPaths past := by
  constructor
  · intro waits
    obtain ⟨t, there, rfl⟩ := List.mem_map.mp waits
    exact List.mem_map_of_mem (h.asked_of_account (.inl there))
  · intro asked
    obtain ⟨t, there, rfl, lasts⟩ :=
      h.exists_lasting (fun m hm => (undisturbed m hm).answered) asked
    have account := h.asked_account t
    rw [List.count_eq_zero.mpr lasts,
      droppedIn_eq_nil fun m hm => (undisturbed m hm).uncleared, (h.unstarted unstarted).2.2,
      List.count_nil] at account
    have := List.count_pos_iff.mpr there
    exact List.mem_map_of_mem (List.count_pos_iff.mp (by omega))

/-! ## 2. From then on -/

/-- Who neither asks for an analysis nor interferes leaves the files in order. -/
theorem orderly_of_undisturbed {m : Moment} (u : Undisturbed files m)
    (unasked : m.action.isRequest = false) : m.action.isOrderly = true := by
  have sound := u.sound
  have uncleared := u.uncleared
  cases ha : m.action with
  | request => rw [ha] at unasked; cases unasked
  | clear => rw [ha] at uncleared; cases uncleared
  | _ =>
    rw [ha] at sound
    exact sound

/-- While the files are in order, each of them stays in one of the three places. -/
theorem Run.places {e₁ : Engine} {later : List Moment} (h : Run e₁ later e)
    (orderly : ∀ m ∈ later, m.action.isOrderly = true) :
    (e.waitingFiles ++ e.openFiles ++ endedFiles e.events).Perm
      (e₁.waitingFiles ++ e₁.openFiles ++ endedFiles e₁.events) := by
  induction h with
  | start => exact .refl _
  | @step later e e' a h hs ih =>
    obtain ⟨own, before⟩ := List.forall_mem_cons.mp orderly
    exact (handling_of_step hs own).places (ih before)

/-- A quiet engine has no file that waits or is open. -/
theorem NothingLeft.isOver (h : NothingLeft past e) : e.Over := by
  refine ⟨by rw [waitingFiles, h.waiting]; rfl, List.filterMap_eq_nil_iff.mpr fun p hp => ?_⟩
  obtain ⟨i, hi⟩ := List.mem_iff_getElem?.mp hp
  have at' : e.At i p := hi
  cases opened : p.openFile? with
  | none => rfl
  | some path =>
    obtain ⟨b, hb⟩ := Option.ne_none_iff_exists'.mp (busy_of_openFile? opened)
    have held : e.Holds i b.task := by rw [Holds, (hand?_of_at at').trans hb]; rfl
    exact absurd held (h.handled i b.task).1

/-- Where nobody asks for an analysis, nothing is asked for. -/
theorem askedIn_eq_nil {later : List Moment}
    (unasked : ∀ m ∈ later, m.action.isRequest = false) : askedIn later = [] := by
  refine List.filterMap_eq_nil_iff.mpr fun m hm => ?_
  have other := unasked m hm
  unfold Moment.asked?
  split
  · rename_i ha
    rw [ha] at other
    cases other
  · rfl

/-- **Each file that was asked for is told of to the end once**, if all was asked for before the
    first start. -/
theorem Run.ended_count (h : Run (built settings store isAdvised bus) past e)
    (undisturbed : ∀ m ∈ past, Undisturbed files m) (quiet : e.isQuiet = true)
    (first : AskedFirst past) (path : String) :
    (endedFiles e.events).count path = if path ∈ askedPaths past then 1 else 0 := by
  obtain ⟨later, before, rfl, unasked, unstarted⟩ := first
  have atEnd := (h.nothingLeft_of_isQuiet (fun m hm => (undisturbed m hm).sound) quiet).isOver
  obtain ⟨e₁, early, late⟩ := h.split
  have places := late.places fun m hm =>
    orderly_of_undisturbed (undisturbed m (List.mem_append_left _ hm)) (unasked m hm)
  obtain ⟨nobody, untold, -⟩ := early.unstarted unstarted
  have closed : e₁.openFiles = [] := by rw [openFiles, nobody]; rfl
  rw [atEnd.waiting, atEnd.opened, closed, untold] at places
  have ended : (endedFiles e.events).Perm e₁.waitingFiles := by simpa [endedFiles] using places
  have asked : askedPaths (later ++ before) = askedPaths before := by
    rw [askedPaths, askedIn_append, askedIn_eq_nil unasked]
    rfl
  rw [ended.count_eq, early.waiting_once.count, asked]
  simp only [early.waits_iff_asked unstarted
    (fun m hm => undisturbed m (List.mem_append_right _ hm)) path]

/-! ## 3. Two runs -/

/-- **The order does not matter**: if nobody interferes with two runs, the files are read as the
    same, an analysis may take as long as it likes, the same files are asked for and both engines
    are quiet in the end, then they have the same results. The order of requests, their priorities
    and kinds, how often they are made, when the engine is started and stopped, who hears of events
    or of candidates, and where insights are stored may all be different. -/
theorem Run.same_results {store' : InsightStore} {isAdvised' : Bool} {bus' : EventBus}
    {past' : List Moment} (h : Run (built settings store isAdvised bus) past e)
    (h' : Run (built settings store' isAdvised' bus') past' e')
    (endless : settings.analysisTimeout = none)
    (undisturbed : ∀ m ∈ past, Undisturbed files m)
    (undisturbed' : ∀ m ∈ past', Undisturbed files m)
    (same : ∀ path, path ∈ askedPaths past ↔ path ∈ askedPaths past')
    (quiet : e.isQuiet = true) (quiet' : e'.isQuiet = true) : SameResults past e past' e' where
  entries path := by
    rw [h.entry_of_isQuiet endless undisturbed quiet,
      h'.entry_of_isQuiet endless undisturbed' quiet']
    simp only [same path]
  once first := h.ended_count undisturbed quiet first
  once' first := h'.ended_count undisturbed' quiet' first

end Run

/-- One file has a function of too many parameters, and no other can be read. -/
def oneCrowdedFile : Readings := fun path =>
  if path = "a.ts" then .ok "function f(a, b) \x7b\x7d\n" else .error .missing

/-- The worker analyses the file with the function. -/
def analysesCrowded (i job : Nat) : List Action :=
  [.worker i .look, .worker i .take,
   .worker i (.endReading (.content "function f(a, b) \x7b\x7d\n")),
   .endJob job (.ofSource "a.ts" "function f(a, b) \x7b\x7d\n"), .worker i .cache,
   .worker i (.advise none), .worker i .close, .worker i (.save .tried), .worker i .finish]

/-- The worker fails to analyse a file that is missing. -/
def missesFile (i : Nat) : List Action :=
  [.worker i .look, .worker i .take, .worker i (.endReading (.fault .missing)), .worker i .refuse,
   .worker i .report, .worker i .finish]

/-- One file is analysed after the other. -/
def oneAfterTheOther : List Action :=
  [.request "a.ts" .medium .full, .request "b.ts" .medium .full, .start, .worker 0 .enterSlot] ++
    analysesCrowded 0 0 ++ .worker 0 .restOver :: missesFile 0

/-- One file is asked for twice, the other one goes before it, and the engine is stopped and started
    again between the two. -/
def theOtherFirst : List Action :=
  [.request "a.ts" .low .full, .request "b.ts" .high .full, .request "a.ts" .medium .incremental,
   .start, .worker 0 .enterSlot] ++ missesFile 0 ++
    [.stop, .worker 0 .heedStop, .worker 0 .leave, .start, .worker 1 .enterSlot] ++
      analysesCrowded 1 0

theorem same_results_otherFirst :
    let settings : Settings := { thresholds := { maxParameters := 1 } }
    ∃ past e past' e', Run (built settings (.memory .empty) false {}) past e ∧
      Run (built settings (.memory .empty) true {}) past' e' ∧
      (∀ m ∈ past, Undisturbed oneCrowdedFile m) ∧ (∀ m ∈ past', Undisturbed oneCrowdedFile m) ∧
      askedPaths past = ["b.ts", "a.ts"] ∧ askedPaths past' = ["a.ts", "b.ts", "a.ts"] ∧
      e.isQuiet = true ∧ e'.isQuiet = true ∧ AskedFirst past ∧ AskedFirst past' ∧
      (e.insights "a.ts").length = 1 ∧ SameResults past e past' e' := by
  intro settings
  obtain ⟨⟨past, e⟩, ht, facts⟩ := Option.map_eq_some_iff.mp (show
    (trace? oneAfterTheOther ([], built settings (.memory .empty) false {})).map (fun r =>
      (decide (∀ m ∈ r.1, Undisturbed oneCrowdedFile m), askedPaths r.1, r.2.isQuiet,
        (r.1.take 18).all (!·.action.isRequest), (r.1.drop 18).all (!·.action.isStart),
          (r.2.insights "a.ts").length)) =
      some (true, ["b.ts", "a.ts"], true, true, true, 1) by decide +kernel)
  obtain ⟨⟨past', e'⟩, ht', facts'⟩ := Option.map_eq_some_iff.mp (show
    (trace? theOtherFirst ([], built settings (.memory .empty) true {})).map (fun r =>
      (decide (∀ m ∈ r.1, Undisturbed oneCrowdedFile m), askedPaths r.1, r.2.isQuiet,
        (r.1.take 22).all (!·.action.isRequest), (r.1.drop 22).all (!·.action.isStart))) =
      some (true, ["a.ts", "b.ts", "a.ts"], true, true, true) by decide +kernel)
  simp only [Prod.mk.injEq, decide_eq_true_eq, List.all_eq_true, Bool.not_eq_true'] at facts facts'
  obtain ⟨undisturbed, asked, quiet, unasked, unstarted, found⟩ := facts
  obtain ⟨undisturbed', asked', quiet', unasked', unstarted'⟩ := facts'
  have run := Run.start.of_trace? ht
  have run' := Run.start.of_trace? ht'
  have same (path : String) : path ∈ askedPaths past ↔ path ∈ askedPaths past' := by
    rw [asked, asked']
    simp [or_comm]
  exact ⟨past, e, past', e', run, run', undisturbed, undisturbed', asked, asked', quiet, quiet',
    ⟨_, _, (List.take_append_drop 18 past).symm, unasked, unstarted⟩,
    ⟨_, _, (List.take_append_drop 22 past').symm, unasked', unstarted'⟩, found,
    run.same_results run' rfl undisturbed undisturbed' same quiet quiet'⟩

end Engine

end CodeInsight
