import CodeInsight.Proofs.Engine.Telling

/-!
# The stream of events

* the task in a hand is the one taken last (`Run.latest`), so the events are what was told of the
  tasks that were taken, one after the other (`Run.events_eq`);
* what was told of a task that a worker has done with is a block (`Run.block_of_ended`);
* **the events are blocks**, one for each task taken, in the order in which they were taken
  (`Run.events_inBlocks`).
-/

namespace CodeInsight

namespace Engine

/-! ## 1. One task after the other -/

section Run

variable {settings : Settings} {store : InsightStore} {isAdvised : Bool} {bus : EventBus}
variable {past : List Moment} {e e' : Engine} {a : Action}

/-- While a task is worked on none is taken. -/
theorem taken?_of_worked (one : e.OneInSlot) (hs : e.step? a = some e') {b : Assignment}
    (worked : (Moment.mk e a).hand? = some b) : (Moment.mk e a).taken? = none := by
  cases taken : (Moment.mk e a).taken? with
  | none => rfl
  | some it =>
    obtain ⟨idle, -⟩ := (effect_of_step hs).walk.hand_of_taken one taken
    rw [worked] at idle
    cases idle

/-- A step on nothing keeps what was told of every task. -/
theorem toldOf_of_idle (idle : (Moment.mk e a).hand? = none) (t : Task) :
    toldOf (⟨e, a⟩ :: past) t = toldOf past t := by
  unfold toldOf
  rw [workOn_cons_of_ne (by simp [idle])]

/-- **The task in a hand is the one taken last.** -/
theorem Run.latest (h : Run (built settings store isAdvised bus) past e) {i : Nat}
    {b : Assignment} (hb : e.hand? i = some b) : (takenIn past).head? = some b.task := by
  induction h generalizing i b with
  | start => cases hb
  | @step past e e' a h hs ih =>
    have one := h.oneInSlot
    have walk := (effect_of_step hs).walk
    rw [takenIn_cons]
    rcases walk.hand_cases hb with before | ⟨rfl, -, -, head⟩
    · cases taken : (Moment.mk e a).taken? with
      | none => exact ih before
      | some it =>
        rw [(walk.hand_of_taken one taken).2 i] at before
        cases before
    · simp [Moment.taken?, head]

/-- One step tells of the task taken last. -/
theorem events_step (run : Run (built settings store isAdvised bus) past e)
    (hs : e.step? a = some e')
    (ih : e.events = (takenIn past).reverse.flatMap (toldOf past)) :
    e'.events = (takenIn (⟨e, a⟩ :: past)).reverse.flatMap (toldOf (⟨e, a⟩ :: past)) := by
  have one := run.oneInSlot
  rw [events_of_step hs, ih, takenIn_cons]
  cases worked : (Moment.mk e a).hand? with
  | none =>
    have told : toldOf (⟨e, a⟩ :: past) = toldOf past := funext (toldOf_of_idle worked)
    rw [told_of_idle hs worked, told, List.append_nil, List.reverse_append, List.flatMap_append]
    cases taken : (Moment.mk e a).taken? with
    | none => simp
    | some it =>
      -- a task that is taken just now begins with nothing
      simp [toldOf, toldIn, run.workOn_eq_nil (run.fresh_of_taken hs taken)]
  | some b =>
    rw [taken?_of_worked one hs worked]
    obtain ⟨i, hb⟩ := hand_of_worked worked
    obtain ⟨earlier, taken⟩ := List.head?_eq_some_iff.mp (run.latest hb)
    have nodup := run.takenIn_nodup
    rw [taken] at nodup ⊢
    have others : ∀ t ∈ earlier, toldOf (⟨e, a⟩ :: past) t = toldOf past t := by
      intro t ht
      have other : b.task ≠ t := by
        rintro rfl
        exact (List.nodup_cons.mp nodup).1 ht
      unfold toldOf
      rw [workOn_cons_of_ne (by simpa [worked] using other)]
    have own : toldOf (⟨e, a⟩ :: past) b.task = toldOf past b.task ++ (Moment.mk e a).told := by
      unfold toldOf
      rw [workOn_cons_of_worked worked, toldIn_cons]
    have before : earlier.reverse.flatMap (toldOf (⟨e, a⟩ :: past)) =
        earlier.reverse.flatMap (toldOf past) := by
      rw [List.flatMap_def, List.map_congr_left fun t ht => others t (List.mem_reverse.mp ht)]
      rfl
    simp [own, before]

/-- **The events are what was told of the tasks**, one after the other in the order in which they
    were taken. -/
theorem Run.events_eq (h : Run (built settings store isAdvised bus) past e) :
    e.events = (takenIn past).reverse.flatMap (toldOf past) := by
  induction h with
  | start => rfl
  | step h hs ih => exact events_step h hs ih

/-! ## 2. Blocks -/

/-- A task that a worker has done with has got its block, unless the worker broke down. -/
theorem Run.block_of_ended (h : Run (built settings store isAdvised bus) past e)
    (sound : ∀ m ∈ past, m.action.isSound = true) {t : Task} (ht : t ∈ endedIn past) :
    Block settings.thresholds t.path (workOn past t) (toldOf past t) := by
  obtain ⟨e₁, b, p, rfl, -, last, so⟩ := soFar_course.ended h ht
  rw [last sound] at so
  exact so

/-- What was told so far of a task in a hand is the beginning of a block. -/
theorem begins_of_soFar {thresholds : Thresholds} {jobs : List Job} {path : String}
    {work : List Moment} {p : Phase} (busy : p.assignment? ≠ none)
    (so : SoFar thresholds jobs path work p) :
    ∃ rest, Block thresholds path work (toldIn work ++ rest) := by
  have failing (told : toldIn work = []) :
      ∃ rest, Block thresholds path work (toldIn work ++ rest) :=
    ⟨[.failed path "" .epoch], by rw [told]; exact .failed "" .epoch⟩
  have completing {content : String} {outline : Outline} {r : AnalysisResult}
      {found : List (Signal × Instant)} (left : List Signal)
      (analysis : IsAnalysis thresholds path work content outline r)
      (all : found.map (·.1) ++ left = r.signals) (told : toldIn work = detections path found) :
      ∃ rest, Block thresholds path work (toldIn work ++ rest) := by
    let coming : List (Signal × Instant) := left.map fun signal => (signal, .epoch)
    have whole : (found ++ coming).map (·.1) = r.signals := by
      rw [← all]
      simp [coming, Function.comp_def]
    refine ⟨detections path coming ++ [.completed path r.insights .epoch], ?_⟩
    rw [told, ← List.append_assoc, detections, detections, ← List.map_append]
    exact .analysed analysis whole (analysis.order whole)
  cases p with
  | reading => exact failing so.2.2
  | analysing => exact failing so.2.1
  | refusing => exact failing so
  | reporting => exact failing so
  | announcing a r left =>
    obtain ⟨content, outline, found, analysis, all, told⟩ := so
    exact completing left analysis all told
  | advising a r current =>
    obtain ⟨content, outline, found, analysis, all, told⟩ := so
    exact completing [] analysis (by simpa using all) told
  | closing a r current =>
    obtain ⟨content, outline, found, analysis, all, told⟩ := so
    exact completing [] analysis (by simpa using all) told
  | saving =>
    have block : Block thresholds path work (toldIn work) := so
    exact ⟨[], by simpa using block⟩
  | _ => exact absurd rfl busy

/-- **The events of a run** are a block for each task that was taken, one behind the other in the
    order in which the tasks were taken; only the last of them may still be at its beginning. -/
structure InBlocks (thresholds : Thresholds) (past : List Moment) (e : Engine) : Prop where
  events : e.events = (takenIn past).reverse.flatMap (toldOf past)
  once : (takenIn past).Nodup
  block : ∀ t ∈ takenIn past, t ∉ e.inHand →
    Block thresholds t.path (workOn past t) (toldOf past t)
  latest : ∀ t ∈ e.inHand, (takenIn past).head? = some t
  begun : ∀ t ∈ e.inHand, ∃ rest,
    Block thresholds t.path (workOn past t) (toldOf past t ++ rest)

/-- **The events are blocks**, whatever was asked for, cleared, started and stopped in whatever
    order, as long as no collaborator breaks down. -/
theorem Run.events_inBlocks (h : Run (built settings store isAdvised bus) past e)
    (sound : ∀ m ∈ past, m.action.isSound = true) : InBlocks settings.thresholds past e where
  events := h.events_eq
  once := h.takenIn_nodup
  block := by
    intro t taken free
    exact h.block_of_ended sound ((h.inHand_or_ended taken).resolve_left free)
  latest := by
    intro t held
    obtain ⟨i, p, b, hp, hb, rfl⟩ := exists_at_of_mem_inHand held
    exact h.latest ((hand?_of_at hp).trans hb)
  begun := by
    intro t held
    obtain ⟨i, p, b, hp, hb, rfl⟩ := exists_at_of_mem_inHand held
    exact begins_of_soFar (by simp [hb]) (soFar_course.hand h hp hb)

end Run

/-- Two files are asked for; one is analysed, the other cannot be read. -/
def twoTasks : List Action :=
  [.request "a.ts" .medium .full, .start, .worker 0 .enterSlot, .worker 0 .look, .worker 0 .take,
   .worker 0 (.endReading (.content "")), .endJob 0 (.outline ⟨"a.ts", none, [], []⟩),
   .worker 0 .cache, .request "b.ts" .high .full, .worker 0 (.advise none), .worker 0 .close,
   .worker 0 (.save .tried), .worker 0 .finish, .worker 0 .restOver, .worker 0 .look,
   .worker 0 .take, .worker 0 (.endReading (.fault .missing)), .worker 0 .refuse,
   .worker 0 .report]

theorem events_inBlocks_twoTasks :
    ∃ past e, Run (built default (.memory .empty) false {}) past e ∧
      past.map (·.action) = twoTasks.reverse ∧ (∀ m ∈ past, m.action.isSound = true) ∧
      takenIn past = [Task.of "b.ts" .high .full ⟨0, 1000, by decide, by decide⟩,
        Task.of "a.ts" .medium .full .epoch] ∧ e.inHand = [] ∧
      e.events = [.completed "a.ts" [] .epoch,
        .failed "b.ts" "Failed to read b.ts: No such file or directory (os error 2)" .epoch] ∧
      InBlocks (default : Settings).thresholds past e := by
  obtain ⟨⟨past, e⟩, ht, facts⟩ := Option.map_eq_some_iff.mp (show
    (trace? twoTasks ([], built default (.memory .empty) false {})).map (fun r =>
      (takenIn r.1, r.2.inHand, r.2.events)) =
        some ([Task.of "b.ts" .high .full ⟨0, 1000, by decide, by decide⟩,
            Task.of "a.ts" .medium .full .epoch], [], [.completed "a.ts" [] .epoch,
          .failed "b.ts" "Failed to read b.ts: No such file or directory (os error 2)" .epoch])
      by decide)
  simp only [Prod.mk.injEq] at facts
  obtain ⟨taken, free, events⟩ := facts
  have run := Run.start.of_trace? ht
  have sound := sound_of_trace? ht (by decide)
  exact ⟨past, e, run, by rw [actions_of_trace? ht]; rfl, sound, taken, free, events,
    run.events_inBlocks sound⟩

end Engine

end CodeInsight
