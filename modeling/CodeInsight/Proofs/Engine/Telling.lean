import CodeInsight.Proofs.Engine.Course

/-!
# What is told of a task

* a `Block` is what is told of one task: that its analysis failed, or the intents that its content
  suggests, in their order, and then that the analysis is complete, with the insights of it;
* `SoFar` is the invariant: how far a worker has come with its task is what was told of it, read
  for it and outlined for it so far (`soFar_step`);
* a moment in which nothing is worked on tells of nothing (`told_of_idle`).
-/

namespace CodeInsight

/-! ## 1. Blocks -/

/-- The contents that were read in moments, the latest first. -/
def contentsIn (moments : List Moment) : List String := moments.filterMap Moment.read?

/-- The outlines that were made in moments, the latest first. -/
def outlinesIn (moments : List Moment) : List Outline := moments.filterMap Moment.outlined?

/-- The events that tell of the intents of a file. -/
def detections (path : String) (found : List (Signal × Instant)) : List Event :=
  found.map fun f => .detected path f.1 f.2

/-- A result is what the analysis of the one content that was read in moments, with the one outline
    that was made of it, yields. -/
structure IsAnalysis (thresholds : Thresholds) (path : String) (work : List Moment)
    (content : String) (outline : Outline) (r : AnalysisResult) : Prop where
  read : contentsIn work = [content]
  outlined : outlinesIn work = [outline]
  insights : ∃ stamp : Stamp,
    r.insights = stamp.mark (Analysis.run thresholds path content outline).findings
  signals : r.signals = (Analysis.run thresholds path content outline).signals

/-- **What is told of one task** that was worked on in moments. -/
inductive Block (thresholds : Thresholds) (path : String) (work : List Moment) :
    List Event → Prop where
  | failed (message : String) (time : Instant) :
      Block thresholds path work [.failed path message time]
  | analysed {content : String} {outline : Outline} {r : AnalysisResult}
      {found : List (Signal × Instant)} {time : Instant}
      (analysis : IsAnalysis thresholds path work content outline r)
      (all : found.map (·.1) = r.signals)
      (order : (found.map (·.1.intent)).Sublist Intent.all) :
      Block thresholds path work (detections path found ++ [.completed path r.insights time])

/-- How far a worker has come with its task is what its moments say. -/
def SoFar (thresholds : Thresholds) (jobs : List Job) (path : String) (work : List Moment) :
    Phase → Prop
  | .reading _ => contentsIn work = [] ∧ outlinesIn work = [] ∧ toldIn work = []
  | .analysing _ id =>
    outlinesIn work = [] ∧ toldIn work = [] ∧ (∃ job ∈ jobs, job.id = id) ∧
      ∀ job ∈ jobs, job.id = id → job.path = path ∧ contentsIn work = [job.content]
  | .announcing _ r left =>
    ∃ content outline found, IsAnalysis thresholds path work content outline r ∧
      found.map (·.1) ++ left = r.signals ∧ toldIn work = detections path found
  | .advising _ r _ | .closing _ r _ =>
    ∃ content outline found, IsAnalysis thresholds path work content outline r ∧
      found.map (·.1) = r.signals ∧ toldIn work = detections path found
  | .refusing _ _ | .reporting _ _ => toldIn work = []
  | .saving _ _ | .finishing => Block thresholds path work (toldIn work)
  | _ => True

section Work

variable {thresholds : Thresholds} {path : String} {m : Moment} {work : List Moment}

theorem toldIn_cons (m : Moment) (work : List Moment) :
    toldIn (m :: work) = toldIn work ++ m.told := by
  simp [toldIn]

theorem contentsIn_cons (m : Moment) (work : List Moment) :
    contentsIn (m :: work) = m.read?.toList ++ contentsIn work := by
  cases h : m.read? <;> simp [contentsIn, h]

theorem outlinesIn_cons (m : Moment) (work : List Moment) :
    outlinesIn (m :: work) = m.outlined?.toList ++ outlinesIn work := by
  cases h : m.outlined? <;> simp [outlinesIn, h]

/-- An analysis is over once nothing more is read or outlined. -/
theorem IsAnalysis.cons {content : String} {outline : Outline} {r : AnalysisResult}
    (h : IsAnalysis thresholds path work content outline r) (read : m.read? = none)
    (outlined : m.outlined? = none) :
    IsAnalysis thresholds path (m :: work) content outline r where
  read := by rw [contentsIn_cons, read]; exact h.read
  outlined := by rw [outlinesIn_cons, outlined]; exact h.outlined
  insights := h.insights
  signals := h.signals

theorem Block.cons {events : List Event} (h : Block thresholds path work events)
    (read : m.read? = none) (outlined : m.outlined? = none) :
    Block thresholds path (m :: work) events := by
  cases h with
  | failed message time => exact .failed message time
  | analysed analysis all order => exact .analysed (analysis.cons read outlined) all order

/-- The signals of an analysis are of different intents, in the one order. -/
theorem IsAnalysis.order {content : String} {outline : Outline} {r : AnalysisResult}
    (h : IsAnalysis thresholds path work content outline r) {found : List (Signal × Instant)}
    (all : found.map (·.1) = r.signals) :
    (found.map (·.1.intent)).Sublist Intent.all := by
  have intents : found.map (·.1.intent) = (found.map (·.1)).map (·.intent) := by simp
  rw [intents, all, h.signals]
  exact Intent.detect_sublist _ _

end Work

namespace Engine

/-! ## 2. What a step tells of -/

section Told

variable {e e' : Engine} {a : Action}

theorem events_of_silent (hs : List Happening) (h : e'.history = hs ++ e.history)
    (silent : Silent hs) : e'.events = e.events := by
  unfold events
  rw [h, List.filterMap_append, silent, List.nil_append]

theorem events_of_published {event : Event} {hs : List Happening}
    (h : e'.history = .published event :: (hs ++ e.history)) (silent : Silent hs) :
    e'.events = e.events ++ [event] := by
  have told : (Happening.published event).event? = some event := rfl
  unfold events
  rw [h, List.filterMap_cons_some told, List.filterMap_append, silent, List.nil_append,
    List.reverse_cons]

theorem told_of_silent (hs : e.step? a = some e') (h : e'.events = e.events) :
    (Moment.mk e a).told = [] := by
  rw [Moment.told, after_of_step hs, h]
  exact List.drop_length

theorem told_of_published (hs : e.step? a = some e') {event : Event}
    (h : e'.events = e.events ++ [event]) : (Moment.mk e a).told = [event] := by
  rw [Moment.told, after_of_step hs, h]
  exact List.drop_left

/-- A worker in a phase tells of an event with a step and goes on to another phase. -/
inductive Tells : WorkerStep → Phase → Event → Phase → Prop where
  | detected {b : Assignment} {r : AnalysisResult} {signal : Signal} {left : List Signal}
      {time : Instant} :
      Tells .announce (.announcing b r (signal :: left)) (.detected b.path signal time)
        (.announcing b r left)
  | completed {b : Assignment} {r : AnalysisResult} {current : Bool} {time : Instant} :
      Tells .close (.closing b r current) (.completed b.path r.insights time)
        (if current then .saving b r.insights else .finishing)
  | failed {b : Assignment} {fault : EngineFault} {time : Instant} :
      Tells .report (.reporting b fault) (.failed b.path fault.message time) .finishing

/-- **A step tells of nothing, or one worker tells of one event.** -/
theorem tells_of_step (hs : e.step? a = some e') :
    e'.events = e.events ∨ ∃ i s p event p', a = .worker i s ∧ e.At i p ∧ Tells s p event p' ∧
      e'.events = e.events ++ [event] ∧ e'.phases = e.phases.set i p' := by
  cases effect_of_step hs with
  | aside _ _ same _ => exact .inl (events_of_silent [] same.history rfl)
  | announce h silent =>
    exact .inr ⟨_, _, _, _, _, rfl, h, .detected, events_of_published rfl silent,
      phases_move _ _ _⟩
  | close h silent =>
    exact .inr ⟨_, _, _, _, _, rfl, h, .completed, events_of_published rfl silent,
      phases_move _ _ _⟩
  | report h silent =>
    exact .inr ⟨_, _, _, _, _, rfl, h, .failed, events_of_published rfl silent,
      phases_move _ _ _⟩
  | request _ silent => exact .inl (events_of_silent _ rfl silent)
  | requestBreaksOff _ silent => exact .inl (events_of_silent _ rfl silent)
  | loadAnswered _ _ silent => exact .inl (events_of_silent _ rfl silent)
  | loadNotCached _ _ silent => exact .inl (events_of_silent _ rfl silent)
  | unreadable _ silent => exact .inl (events_of_silent _ rfl silent)
  | outOfTime _ _ silent => exact .inl (events_of_silent _ rfl silent)
  | advise _ silent => exact .inl (events_of_silent _ rfl silent)
  | notSaved _ _ silent => exact .inl (events_of_silent _ rfl silent)
  | breakdown _ _ _ silent => exact .inl (events_of_silent _ rfl silent)
  | notAnalysed _ silent => exact .inl (events_of_silent _ rfl silent)
  | take => exact .inl (events_of_silent [_] rfl rfl)
  | clear => exact .inl (events_of_silent [_] rfl rfl)
  | loadCached => exact .inl (events_of_silent [_] rfl rfl)
  | cached => exact .inl (events_of_silent [_] rfl rfl)
  | saved => exact .inl (events_of_silent [_] rfl rfl)
  | emptied => exact .inl (events_of_silent [_] rfl rfl)
  | takeNothing | loadBegins | content | notCached | notEmptied | analysed | jobLost =>
    exact .inl (events_of_silent [] rfl rfl)

/-- A step tells of nothing, or of one event, and then of one about the task it works on. -/
theorem says_of_step (hs : e.step? a = some e') :
    e'.events = e.events ∨
      (∃ event, e'.events = e.events ++ [event]) ∧ (Moment.mk e a).hand? ≠ none := by
  rcases tells_of_step hs with same | ⟨i, s, p, event, p', rfl, at', tells, told, -⟩
  · exact .inl same
  · refine .inr ⟨⟨event, told⟩, ?_⟩
    rw [worked_of_at at']
    cases tells <;> exact nofun

/-- What a step tells of comes behind what was told of before. -/
theorem events_of_step (hs : e.step? a = some e') :
    e'.events = e.events ++ (Moment.mk e a).told := by
  rcases says_of_step hs with h | ⟨⟨event, h⟩, -⟩
  · rw [told_of_silent hs h, List.append_nil, h]
  · rw [told_of_published hs h, h]

/-- Where nothing is worked on, nothing is told of. -/
theorem told_of_idle (hs : e.step? a = some e') (idle : (Moment.mk e a).hand? = none) :
    (Moment.mk e a).told = [] := by
  rcases says_of_step hs with h | ⟨-, h⟩
  · exact told_of_silent hs h
  · exact absurd idle h

end Told

/-! ## 3. What is told of the task in hand -/

section Work

variable {thresholds : Thresholds} {work : List Moment}

/-- **A step on a task goes on with what was told of it.** -/
theorem soFar_step {e e' : Engine} {a : Action} {b : Assignment}
    (hs : e.step? a = some e') (worked : (Moment.mk e a).hand? = some b)
    (limits : e.settings.thresholds = thresholds) (known : ∀ job ∈ e.jobs, job.id < e.jobCount)
    (so : ∀ i p, e.At i p → p.assignment? = some b → SoFar thresholds e.jobs b.path work p) :
    ∃ i p, e.hand? i = some b ∧ e'.phases = e.phases.set i p ∧
      SoFar thresholds e'.jobs b.path (⟨e, a⟩ :: work) p := by
  have quiet (h : e'.events = e.events) : toldIn (⟨e, a⟩ :: work) = toldIn work := by
    rw [toldIn_cons, told_of_silent hs h, List.append_nil]
  have tells {event : Event} (h : e'.events = e.events ++ [event]) :
      toldIn (⟨e, a⟩ :: work) = toldIn work ++ [event] := by
    rw [toldIn_cons, told_of_published hs h]
  have goOn := @goes_on e e' a (fun c p => SoFar thresholds e.jobs c.path work p)
    (fun c p => SoFar thresholds e'.jobs c.path (⟨e, a⟩ :: work) p) b worked so
  cases effect_of_step hs with
  | aside _ idle _ _ => rw [idle] at worked; cases worked
  | takeNothing h _ => rw [worked_of_at h] at worked; cases worked
  | take h _ => rw [worked_of_at h] at worked; cases worked
  | jobLost nobody => simp [Moment.hand?, nobody] at worked
  | request | requestBreaksOff | clear | loadBegins | loadAnswered | loadCached | loadNotCached =>
    cases worked
  | @content i c text h =>
    refine goOn h rfl (worked_of_at h) (phases_move _ _ _) ?_
    rintro ⟨read, outlined, told⟩
    refine ⟨outlined, (quiet (events_of_silent [] rfl rfl)).trans told,
      ⟨_, List.mem_append_right _ (List.mem_singleton_self _), rfl⟩, fun job there hid => ?_⟩
    -- the new job is the only one with its number
    rcases List.mem_append.mp there with old | new
    · have := known job old
      omega
    · cases List.mem_singleton.mp new
      refine ⟨rfl, ?_⟩
      rw [contentsIn_cons, read]
      rfl
  | unreadable h silent =>
    refine goOn h rfl (worked_of_at h) (phases_move _ _ _) ?_
    rintro ⟨-, -, told⟩
    exact (quiet (events_of_silent _ rfl silent)).trans told
  | outOfTime h hp silent =>
    rcases hp with rfl | ⟨job, rfl⟩
    · refine goOn h rfl (worked_of_at h) (phases_move _ _ _) ?_
      rintro ⟨-, -, told⟩
      exact (quiet (events_of_silent _ rfl silent)).trans told
    · refine goOn h rfl (worked_of_at h) (phases_move _ _ _) ?_
      rintro ⟨-, told, -⟩
      exact (quiet (events_of_silent _ rfl silent)).trans told
  | @announce i c r signal left bus _ h silent =>
    refine goOn h rfl (worked_of_at h) (phases_move _ _ _) ?_
    rintro ⟨content, outline, found, analysis, all, told⟩
    refine ⟨content, outline, found ++ [(signal, e.now)], analysis.cons rfl rfl, ?_, ?_⟩
    · simpa using all
    · rw [tells (events_of_published rfl silent), told]
      simp [detections]
  | cached h _ =>
    refine goOn h rfl (worked_of_at h) (phases_move _ _ _) ?_
    rintro ⟨content, outline, found, analysis, all, told⟩
    exact ⟨content, outline, found, analysis.cons rfl rfl, by simpa using all,
      (quiet (events_of_silent [_] rfl rfl)).trans told⟩
  | notCached h _ =>
    refine goOn h rfl (worked_of_at h) (phases_move _ _ _) ?_
    rintro ⟨content, outline, found, analysis, all, told⟩
    exact ⟨content, outline, found, analysis.cons rfl rfl, by simpa using all,
      (quiet (events_of_silent [] rfl rfl)).trans told⟩
  | advise h silent =>
    refine goOn h rfl (worked_of_at h) (phases_move _ _ _) ?_
    rintro ⟨content, outline, found, analysis, all, told⟩
    exact ⟨content, outline, found, analysis.cons rfl rfl, all,
      (quiet (events_of_silent _ rfl silent)).trans told⟩
  | @close i c r current bus _ h silent =>
    have block : SoFar thresholds e.jobs c.path work (.closing c r current) →
        Block thresholds c.path (⟨e, .worker i .close⟩ :: work)
          (toldIn (⟨e, .worker i .close⟩ :: work)) := by
      rintro ⟨content, outline, found, analysis, all, told⟩
      rw [tells (events_of_published rfl silent), told]
      exact .analysed (analysis.cons rfl rfl) all (analysis.order all)
    cases current with
    | true => exact goOn h rfl (worked_of_at h) (phases_move _ _ _) block
    | false => exact goOn h rfl (worked_of_at h) (phases_move _ _ _) block
  | saved h _ =>
    refine goOn h rfl (worked_of_at h) (phases_move _ _ _) fun block => ?_
    show Block _ _ _ _
    rw [quiet (events_of_silent [_] rfl rfl)]
    exact Block.cons block rfl rfl
  | notSaved h _ silent =>
    refine goOn h rfl (worked_of_at h) (phases_move _ _ _) fun block => ?_
    show Block _ _ _ _
    rw [quiet (events_of_silent _ rfl silent)]
    exact Block.cons block rfl rfl
  | emptied h _ =>
    exact goOn h rfl (worked_of_at h) (phases_move _ _ _) fun told =>
      (quiet (events_of_silent [_] rfl rfl)).trans told
  | notEmptied h _ =>
    exact goOn h rfl (worked_of_at h) (phases_move _ _ _) fun told =>
      (quiet (events_of_silent [] rfl rfl)).trans told
  | report h silent =>
    refine goOn h rfl (worked_of_at h) (phases_move _ _ _) fun told => ?_
    have told : toldIn work = [] := told
    show Block _ _ _ _
    rw [tells (events_of_published rfl silent), told]
    exact .failed _ _
  | breakdown h _ _ _ =>
    exact ⟨_, _, worked, phases_move _ _ _, trivial⟩
  | @analysed id i c job o there hid waits =>
    refine goOn (at_of_waiter? waits) rfl (by simp [Moment.hand?, waits]) (phases_move _ _ _) ?_
    rintro ⟨outlined, told, -, only⟩
    obtain ⟨hpath, read⟩ := only job there hid
    have yields : Analysis.run e.settings.thresholds job.path job.content o =
        Analysis.run thresholds c.path job.content o := by rw [limits, hpath]
    refine ⟨job.content, o, [], ⟨?_, ?_, ⟨⟨e.serial, e.now⟩, ?_⟩, ?_⟩, rfl,
      (quiet (events_of_silent [] rfl rfl)).trans told⟩
    · rw [contentsIn_cons, read]
      rfl
    · rw [outlinesIn_cons, outlined]
      rfl
    · rw [← yields]
      rfl
    · rw [← yields]
      rfl
  | notAnalysed waits silent =>
    refine goOn (at_of_waiter? waits) rfl (by simp [Moment.hand?, waits]) (phases_move _ _ _) ?_
    rintro ⟨-, told, -, -⟩
    exact (quiet (events_of_silent _ rfl silent)).trans told

end Work

/-! ## 4. Jobs -/

section Jobs

variable {e e' : Engine} {a : Action}

theorem settings_of_step (hs : e.step? a = some e') : e'.settings = e.settings := by
  cases effect_of_step hs with
  | aside _ _ same _ => exact same.settings
  | _ => rfl

/-- The numbers of jobs are used up in their order. -/
theorem known_step (hs : e.step? a = some e') (known : ∀ job ∈ e.jobs, job.id < e.jobCount) :
    ∀ job ∈ e'.jobs, job.id < e'.jobCount := by
  cases effect_of_step hs with
  | aside _ _ same _ =>
    rw [same.jobs, same.jobCount]
    exact known
  | content =>
    intro job there
    rcases List.mem_append.mp there with old | new
    · exact Nat.lt_succ_of_lt (known job old)
    · cases List.mem_singleton.mp new
      exact Nat.lt_succ_self _
  | analysed | notAnalysed | jobLost =>
    exact fun job there => known job (List.mem_filter.mp there).1
  | _ => exact known

/-- Where nothing is worked on, no job ends for which anybody waits. -/
theorem jobs_of_idle (hs : e.step? a = some e') (idle : (Moment.mk e a).hand? = none) :
    e'.jobs = e.jobs ∨
      ∃ id, e.waiter? id = none ∧ e'.jobs = e.jobs.filter fun job => job.id != id := by
  cases effect_of_step hs with
  | aside _ _ same _ => exact .inl same.jobs
  | content h => rw [worked_of_at h] at idle; cases idle
  | analysed _ _ waits => simp [Moment.hand?, waits] at idle
  | notAnalysed waits => simp [Moment.hand?, waits] at idle
  | jobLost nobody => exact .inr ⟨_, nobody, rfl⟩
  | _ => exact .inl rfl

/-- **A step on nothing leaves what was told so far.** -/
theorem soFar_idle {thresholds : Thresholds} {path : String} {work : List Moment} {i : Nat}
    {p : Phase} (hs : e.step? a = some e') (idle : (Moment.mk e a).hand? = none) (h : e.At i p)
    (so : SoFar thresholds e.jobs path work p) : SoFar thresholds e'.jobs path work p := by
  rcases jobs_of_idle hs idle with same | ⟨id, nobody, fewer⟩
  · rw [same]
    exact so
  · cases p with
    | analysing c own =>
      obtain ⟨outlined, told, ⟨job, there, hid⟩, only⟩ := so
      rw [fewer]
      -- the job that ended is another one
      have other : own ≠ id := by
        rintro rfl
        exact not_at_of_waiter?_eq_none nobody i c h
      refine ⟨outlined, told, ⟨job, ?_, hid⟩, fun job there => ?_⟩
      · exact List.mem_filter.mpr ⟨there, by simpa [hid] using other⟩
      · exact only job (List.mem_filter.mp there).1
    | _ => exact so

end Jobs

/-! ## 5. Runs -/

section Run

variable {settings : Settings} {store : InsightStore} {isAdvised : Bool} {bus : EventBus}
variable {past : List Moment} {e : Engine}

theorem Run.settings_eq (h : Run (built settings store isAdvised bus) past e) :
    e.settings = settings := by
  induction h with
  | start => rfl
  | step _ hs ih => exact (settings_of_step hs).trans ih

theorem Run.known (h : Run (built settings store isAdvised bus) past e) :
    ∀ job ∈ e.jobs, job.id < e.jobCount := by
  induction h with
  | start =>
    intro job there
    cases there
  | step _ hs ih => exact known_step hs ih

/-- **What was told so far is a course.** -/
theorem soFar_course : Course settings store isAdvised bus fun e b p work =>
    SoFar settings.thresholds e.jobs b.path work p where
  fresh _ _ := ⟨rfl, rfl, rfl⟩
  idle hs idle h so := soFar_idle hs idle h so
  work h hs worked so := soFar_step hs worked (by rw [h.settings_eq]) h.known so

end Run

end Engine

end CodeInsight
