import CodeInsight.Proofs.Engine.Asides
import CodeInsight.Proofs.Engine.Hands

/-!
# Wake-ups

* a worker *waits* from finding no task till it looks for one again (`Phase.waits`); between finding
  none and falling asleep others may queue tasks, and between queueing a task and waking a worker a
  call may be held up: the wake-up is owed meanwhile, one for each such call (`Run.wakes_owed`);
* `Waking` lists what a step does to whoever waits and to the wake-ups (`waking_of_step`);
* a worker falls asleep only if no wake-up is kept, and a task comes with a wake-up: so while a task
  waits a worker is not asleep unless a wake-up is owed (`Wakeable`, `Run.wakeable`);
* **no wake-up is lost** (`Run.wakes_reach`): whenever a task waits and a worker waits for one, a
  wake-up is kept or has reached it, or is about to be paid, and without the idle interval passing
  it takes the task. Until it is paid the worker sleeps though a task waits
  (`asleep_beforeWake`).
-/

namespace CodeInsight

/-- Whether a worker has found no task and waits for one, or is about to. -/
def Phase.waits : Phase → Bool
  | parking | parked _ => true
  | _ => false

/-- Whether a wake-up that is owed is paid. -/
def Action.isPay : Action → Bool
  | payWake => true
  | _ => false

namespace Engine

/-! ## 1. What a step does to wake-ups -/

section Waking

variable {e e' e₁ : Engine} {a : Action} {i : Nat} {p₀ p : Phase}

theorem inSlot_of_waits (h : p.waits = true) : p.inSlot = true := by
  cases p <;> first | rfl | cases h

/-- **What a step does to whoever waits and to the wake-ups.** -/
inductive Waking (e : Engine) : Action → Engine → Prop where
  /-- A worker falls asleep, since no wake-up is kept. -/
  | parks {i : Nat} (h : e.At i .parking) (none : e.wakeKept = false) :
      Waking e (.worker i .park) (e.move i (.parked false))
  /-- A worker about to wait uses up the wake-up kept. -/
  | uses {i : Nat} (h : e.At i .parking) (kept : e.wakeKept = true) :
      Waking e (.worker i .wake) ({ e with wakeKept := false }.move i .checking)
  /-- A worker stops waiting, and a wake-up that has reached it is passed on. -/
  | abandons {i : Nat} {s : WorkerStep} {notified : Bool} {p : Phase}
      (h : e.At i (.parked notified)) (away : p.waits = false) :
      Waking e (.worker i s) (e.abandon i notified p)
  /-- A wake-up that is owed is paid. -/
  | pays {n : Nat} (owed : e.wakesOwed = n + 1) :
      Waking e .payWake { e with wakesOwed := n }.wakeOne
  /-- A task is queued, and a wake-up owed. -/
  | asks {path : String} {priority : Priority} {kind : TaskKind} {e' : Engine}
      (inTime : (e.queue.nextTime? e.now).isSome = true) (owed : e'.wakesOwed = e.wakesOwed + 1)
      (kept : e'.wakeKept = e.wakeKept) (phases : e'.phases = e.phases) :
      Waking e (.request path priority kind) e'
  /-- A worker finds no task. -/
  | findsNothing {i : Nat} (h : e.At i .taking) (empty : e.queue.tasks = []) :
      Waking e (.worker i .take) (e.move i .parking)
  /-- Wake-ups stay as they are, nobody begins to wait, and no task is queued. -/
  | other {a : Action} {e' : Engine} (unpaid : a.isPay = false)
      (unasked : (Moment.mk e a).asked? = none) (owed : e'.wakesOwed = e.wakesOwed)
      (kept : e'.wakeKept = e.wakeKept) (waits : ∀ i p, p.waits = true → e'.At i p → e.At i p)
      (queue : e.queue.tasks = [] → e'.queue.tasks = []) : Waking e a e'

/-- Where no phase changes, nobody begins to wait. -/
theorem waking_of_phases (same : e'.phases = e.phases) (unpaid : a.isPay = false)
    (unasked : (Moment.mk e a).asked? = none) (owed : e'.wakesOwed = e.wakesOwed)
    (kept : e'.wakeKept = e.wakeKept) (queue : e.queue.tasks = [] → e'.queue.tasks = []) :
    Waking e a e' := by
  refine .other unpaid unasked owed kept (fun i p _ h => ?_) queue
  rw [At, same] at h
  exact h

/-- A worker moves to a phase in which it does not wait. -/
theorem waking_of_move (h : e.At i p₀) (away : p.waits = false) (same : e₁.phases = e.phases)
    (unpaid : a.isPay = false) (unasked : (Moment.mk e a).asked? = none)
    (owed : e₁.wakesOwed = e.wakesOwed) (kept : e₁.wakeKept = e.wakeKept)
    (queue : e.queue.tasks = [] → e₁.queue.tasks = []) : Waking e a (e₁.move i p) := by
  refine .other unpaid unasked owed kept (fun j q waits hq => ?_) queue
  rw [at_of_move ((phases_move e₁ i p).trans (by rw [same])) h] at hq
  split at hq
  · rw [hq, away] at waits
    cases waits
  · exact hq

theorem waking_of_workerStep {w : Worker} {s : WorkerStep} (hw : e.workers[i]? = some w)
    (hs : e.workerStep? i w s = some e') (ha : (Action.worker i s).isAside = true) :
    Waking e (.worker i s) e' := by
  have here {p : Phase} (hp : w.phase = p) : e.At i p := at_iff.mpr ⟨w, hw, hp⟩
  unfold workerStep? at hs
  -- a step of a worker with a task; the steps of one that waits; and those that lead to a phase in
  -- which it does not, at once or under a condition
  split at hs <;> first
    | exact absurd ha Bool.false_ne_true
    | (cases hs; exact .abandons (here ‹_›) rfl)
    | (split at hs <;> cases hs; exact .abandons (here ‹_›) rfl)
    | (cases hs; exact waking_of_move (here ‹_›) rfl rfl rfl rfl rfl rfl id)
    | (cases hs; exact waking_of_move (here ‹_›) (by split <;> rfl) rfl rfl rfl rfl rfl id)
    | (split at hs <;> cases hs; exact waking_of_move (here ‹_›) rfl rfl rfl rfl rfl rfl id)
    | (split at hs <;> cases hs; exact .uses (here ‹_›) ‹_›)
    | (split at hs <;> cases hs; exact .parks (here ‹_›) (by simp_all))
    | cases hs

/-- Starting adds a worker that waits for the slot only. -/
theorem waking_of_start : Waking e .start e.start := by
  unfold start
  split
  case isTrue => exact waking_of_phases rfl rfl rfl rfl rfl id
  case isFalse =>
    refine .other rfl rfl rfl rfl (fun j q waits h => ?_) id
    have other : q ≠ .queueing := by
      rintro rfl
      cases waits
    exact (at_of_phases_append (by simp [phases]) other).mp h

/-- Stopping tells a worker, and nothing else. -/
theorem stop_eq (e : Engine) : ∃ ws, e.stop = { e with workers := ws } := by
  unfold stop
  split
  · exact ⟨_, rfl⟩
  · exact ⟨e.workers, rfl⟩

theorem waking_of_stops {shutdowns : List ShutdownPhase} {a : Action} (unpaid : a.isPay = false)
    (unasked : (Moment.mk e a).asked? = none) :
    Waking e a { e.stop with shutdowns := shutdowns } := by
  obtain ⟨ws, same⟩ := e.stop_eq
  have phases : ({ e.stop with shutdowns := shutdowns } : Engine).phases = e.phases := e.phases_stop
  refine waking_of_phases phases unpaid unasked ?_ ?_ ?_
  · rw [same]
  · rw [same]
  · rw [same]
    exact id

theorem waking_of_aside (hs : e.step? a = some e') (ha : a.isAside = true) : Waking e a e' := by
  cases a with
  | worker i s =>
    obtain ⟨w, hw, hs⟩ := Option.bind_eq_some_iff.mp hs
    exact waking_of_workerStep hw hs ha
  | payWake =>
    change e.payWake = some e' at hs
    unfold payWake at hs
    split at hs
    case h_1 => cases hs
    case h_2 n owed =>
      cases hs
      exact .pays owed
  | start =>
    cases hs
    exact waking_of_start
  | stop =>
    cases hs
    exact waking_of_stops rfl rfl
  | shutdownGoesOn k =>
    cases aside_of_shutdownGoesOn hs with
    | stops => exact waking_of_stops rfl rfl
    | takesUp | returns => exact waking_of_phases rfl rfl rfl rfl rfl id
  | shutdownBegins | tick =>
    cases hs
    exact waking_of_phases rfl rfl rfl rfl rfl id
  | _ => cases ha

/-- **These are all**: every step is among them. -/
theorem waking_of_step (hs : e.step? a = some e') : Waking e a e' := by
  cases effect_of_step hs with
  | aside ha => exact waking_of_aside hs ha
  | takeNothing h empty => exact .findsNothing h empty
  | request ht => exact .asks (Option.isSome_iff_exists.mpr ⟨_, ht⟩) rfl rfl rfl
  | requestBreaksOff ht =>
    refine waking_of_phases rfl rfl ?_ rfl rfl fun empty => ?_
    · simp [Moment.asked?, ht]
    · change e.queue.tasks.eraseP _ = []
      rw [empty]
      rfl
  | clear => exact waking_of_phases rfl rfl rfl rfl rfl fun _ => rfl
  | loadBegins | loadAnswered | loadCached | loadNotCached | jobLost =>
    exact waking_of_phases rfl rfl rfl rfl rfl id
  | take h head => exact waking_of_move h rfl rfl rfl rfl rfl rfl fun empty => by simp_all
  | content h | announce h | cached h | notCached h | advise h | saved h | notSaved h
  | emptied h | notEmptied h | report h | unreadable h | outOfTime h | breakdown h =>
    exact waking_of_move h rfl rfl rfl rfl rfl rfl id
  | close h =>
    exact waking_of_move h (by split <;> rfl) rfl rfl rfl rfl rfl id
  | analysed _ _ waits | notAnalysed waits =>
    exact waking_of_move (at_of_waiter? waits) rfl rfl rfl rfl rfl rfl id

end Waking

/-! ## 2. Who waits while a task waits -/

/-- Wake-ups are where they are needed: none is kept while a worker is asleep, and while a task
    waits, one is owed if a worker is asleep, and one is kept or owed if a worker is about to fall
    asleep. -/
structure Wakeable (e : Engine) : Prop where
  kept : e.wakeKept = true → ∀ i, ¬ e.At i (.parked false)
  asleep : ∀ i, e.At i (.parked false) → e.queue.tasks ≠ [] → 0 < e.wakesOwed
  about : ∀ i, e.At i .parking → e.queue.tasks ≠ [] → e.wakeKept = true ∨ 0 < e.wakesOwed

section Wakeable

variable {e e' : Engine} {a : Action} {i : Nat} {p : Phase} {notified : Bool}

/-- Where nobody waits, nobody has to be woken. -/
theorem wakeable_of_nobody (h : ∀ i p, p.waits = true → ¬ e.At i p) : Wakeable e where
  kept _ i := h i _ rfl
  asleep i there := absurd there (h i _ rfl)
  about i there := absurd there (h i _ rfl)

/-- Where the worker in the slot is moved, nobody else waits. -/
theorem waits_of_move (one : e.OneInSlot) (h : e.At i p₀) (hp : p₀.inSlot = true)
    (moved : e'.phases = e.phases.set i p) {j : Nat} {q : Phase} (there : e'.At j q)
    (hq : q.waits = true) : q = p := by
  rw [at_of_move moved h] at there
  split at there
  case isTrue => exact there
  case isFalse other => exact absurd (one j i q p₀ there h (inSlot_of_waits hq) hp) other

/-- Where it is moved to a phase in which it does not wait, nobody waits. -/
theorem nobody_of_move (one : e.OneInSlot) (h : e.At i p₀) (hp : p₀.inSlot = true)
    (moved : e'.phases = e.phases.set i p) (away : p.waits = false) (j : Nat) (q : Phase)
    (hq : q.waits = true) : ¬ e'.At j q := by
  intro there
  rw [waits_of_move one h hp moved there hq, away] at hq
  cases hq

/-- A wake-up that nobody is asleep for is kept. -/
theorem wakeOne_of_nobody (h : ∀ i, ¬ e.At i (.parked false)) :
    e.wakeOne = { e with wakeKept := true } := by
  rcases e.wakeOne_cases with ⟨same, -⟩ | ⟨i, there, -⟩
  · exact same
  · exact absurd there (h i)

/-- **A step keeps wake-ups where they are needed.** -/
theorem Wakeable.step (h : e.Wakeable) (one : e.OneInSlot) (step : Waking e a e') :
    e'.Wakeable := by
  cases step with
  | @parks i there none =>
    have owed (tasks : e.queue.tasks ≠ []) : 0 < e.wakesOwed := by
      rcases h.about i there tasks with kept | owed
      · rw [none] at kept
        cases kept
      · exact owed
    refine ⟨fun kept => ?_, fun _ _ tasks => owed tasks, fun _ _ tasks => .inr (owed tasks)⟩
    rw [show (e.move i _).wakeKept = e.wakeKept from rfl, none] at kept
    cases kept
  | uses there _ => exact wakeable_of_nobody (nobody_of_move one there rfl (phases_move _ _ _) rfl)
  | @abandons i s notified p there away =>
    have nobody := nobody_of_move one there rfl (phases_move e i p) away
    unfold abandon
    cases notified with
    | false => exact wakeable_of_nobody nobody
    | true =>
      rw [if_pos rfl, wakeOne_of_nobody fun j => nobody j _ rfl]
      exact wakeable_of_nobody nobody
  | @pays n owed =>
    rcases wakeOne_cases { e with wakesOwed := n } with ⟨same, nobody⟩ | ⟨i, there, moved⟩
    · rw [same]
      exact ⟨fun _ => nobody, fun j asleep => absurd asleep (nobody j), fun _ _ _ => .inl rfl⟩
    · rw [moved]
      have notified {j : Nat} {q : Phase}
          (now : (move { e with wakesOwed := n } i (.parked true)).At j q) (hq : q.waits = true) :
          q = .parked true :=
        waits_of_move (one.of_phases rfl) there rfl (phases_move _ _ _) now hq
      exact ⟨fun _ _ asleep => (nomatch notified asleep rfl),
        fun _ asleep => (nomatch notified asleep rfl), fun _ about => (nomatch notified about rfl)⟩
  | asks _ owed kept phases =>
    have more : 0 < e'.wakesOwed := by
      rw [owed]
      exact Nat.succ_pos _
    refine ⟨fun wake i asleep => ?_, fun _ _ _ => more, fun _ _ _ => .inr more⟩
    rw [At, phases] at asleep
    exact h.kept (kept ▸ wake) i asleep
  | @findsNothing i there empty =>
    refine ⟨fun wake j asleep => ?_, fun _ _ tasks => absurd empty tasks,
      fun _ _ tasks => absurd empty tasks⟩
    rw [at_of_move (phases_move _ _ _) there] at asleep
    split at asleep
    · cases asleep
    · exact h.kept wake j asleep
  | other _ _ owed kept waits queue =>
    refine ⟨fun wake i asleep => h.kept (kept ▸ wake) i (waits i _ rfl asleep),
      fun i asleep tasks => ?_, fun i about tasks => ?_⟩
    · rw [owed]
      exact h.asleep i (waits i _ rfl asleep) (mt queue tasks)
    · rw [owed, kept]
      exact h.about i (waits i _ rfl about) (mt queue tasks)

theorem wakesOwed_wakeOne (e : Engine) : e.wakeOne.wakesOwed = e.wakesOwed := by
  rcases e.wakeOne_cases with ⟨same, -⟩ | ⟨i, -, same⟩
  · rw [same]
  · rw [same]
    rfl

theorem wakesOwed_abandon (e : Engine) (i : Nat) (notified : Bool) (p : Phase) :
    (e.abandon i notified p).wakesOwed = e.wakesOwed := by
  unfold abandon
  cases notified with
  | false => rfl
  | true => exact wakesOwed_wakeOne _

/-- A wake-up is owed for each task that is asked for, until it is paid. -/
theorem Waking.owed (step : Waking e a e') :
    (Moment.mk e a).asked?.toList.length + e.wakesOwed =
      (if a.isPay then 1 else 0) + e'.wakesOwed := by
  cases step with
  | parks | uses | findsNothing => rfl
  | abandons =>
    rw [wakesOwed_abandon]
    rfl
  | pays owed =>
    rw [wakesOwed_wakeOne, owed]
    exact (Nat.zero_add _).trans (Nat.add_comm _ _)
  | asks inTime owed =>
    rw [owed]
    simp [Moment.asked?, inTime, Action.isPay, Nat.add_comm]
  | other unpaid unasked owed => rw [unpaid, unasked, owed]; rfl

end Wakeable

/-! ## 3. Runs -/

section Runs

variable {settings : Settings} {store : InsightStore} {isAdvised : Bool} {bus : EventBus}
  {past : List Moment} {e : Engine} {i : Nat}

/-- **While a task waits, no worker is asleep** unless a wake-up is owed. -/
theorem Run.wakeable (h : Run (built settings store isAdvised bus) past e) : e.Wakeable := by
  induction h with
  | start => exact wakeable_of_nobody fun i p _ there => by cases there
  | step run hs ih => exact ih.step run.oneInSlot (waking_of_step hs)

/-- **Each task asked for comes with one wake-up**, which is owed until it is paid. -/
theorem Run.wakes_owed (h : Run (built settings store isAdvised bus) past e) :
    (askedIn past).length = past.countP (·.action.isPay) + e.wakesOwed := by
  induction h with
  | start => rfl
  | @step past e e' a run hs ih =>
    have owed := (waking_of_step hs).owed
    rw [List.countP_cons]
    change _ = past.countP _ + (if a.isPay = true then 1 else 0) + _
    have asked : (askedIn (⟨e, a⟩ :: past)).length =
        (Moment.mk e a).asked?.toList.length + (askedIn past).length := by
      unfold askedIn
      cases h : (Moment.mk e a).asked? with
      | none => rw [List.filterMap_cons_none h]; simp
      | some t => rw [List.filterMap_cons_some h]; simp [Nat.add_comm]
    omega

/-! ## 4. Taking a task -/

theorem getElem?_move (e : Engine) (i : Nat) (p : Phase) :
    (e.move i p).workers[i]? = e.workers[i]?.map fun w => { w with phase := p } := by
  simp [move]

/-- A worker that looks for a task and is not to stop takes the next one. -/
theorem exists_taking {t : Task} {ts : List Task} (there : e.workers[i]? = some ⟨.checking, false⟩)
    (tasks : e.queue.tasks = t :: ts) :
    ∃ later e', Run e later e' ∧
      later.map (·.action) = [.worker i .take, .worker i .look] ∧
      e'.At i (.reading ⟨t, e.epoch⟩) := by
  have looks : e.step? (.worker i .look) = some (e.move i .taking) := by
    simp [step?, there, workerStep?]
  have next : (e.move i .taking).workers[i]? = some ⟨.taking, false⟩ := by
    rw [getElem?_move, there]
    rfl
  have takes : (e.move i .taking).step? (.worker i .take) = some ((e.move i .taking).take i) := by
    simp [step?, next, workerStep?]
  refine ⟨_, _, (Run.start.step looks).step takes, rfl, ?_⟩
  have here : (e.move i .taking).At i .taking := at_iff.mpr ⟨_, next, rfl⟩
  have tasks' : (e.move i .taking).queue.tasks = t :: ts := tasks
  rw [take, TaskQueue.dequeue, tasks']
  exact at_moved (phases_move _ i _) here

/-- A wake-up is there for a worker that waits: one is kept, or it has reached the worker. -/
def HasWake (e : Engine) (p : Phase) : Prop := e.wakeKept = true ∨ p = .parked true

/-- **A worker for which a wake-up is there takes the next task** without waiting any longer. -/
theorem Wakeable.exists_taking (h : e.Wakeable) {p : Phase} {t : Task} {ts : List Task}
    (there : e.workers[i]? = some ⟨p, false⟩) (waits : p.waits = true) (wake : e.HasWake p)
    (tasks : e.queue.tasks = t :: ts) :
    ∃ later e', Run e later e' ∧
      later.map (·.action) = [.worker i .take, .worker i .look, .worker i .wake] ∧
      e'.At i (.reading ⟨t, e.epoch⟩) := by
  obtain ⟨e₁, wakes, next, queue, epoch⟩ : ∃ e₁, e.step? (.worker i .wake) = some e₁ ∧
      e₁.workers[i]? = some ⟨.checking, false⟩ ∧ e₁.queue = e.queue ∧ e₁.epoch = e.epoch := by
    have here : e.At i p := at_iff.mpr ⟨_, there, rfl⟩
    have moved {e₁ : Engine} (same : e₁.workers = e.workers) :
        (e₁.move i .checking).workers[i]? = some ⟨.checking, false⟩ := by
      rw [getElem?_move, same, there]
      rfl
    cases p with
    | parking =>
      have kept : e.wakeKept = true := wake.resolve_right nofun
      exact ⟨{ e with wakeKept := false }.move i .checking,
        by simp [step?, there, workerStep?, kept], moved rfl, rfl, rfl⟩
    | parked notified =>
      cases notified with
      | true =>
        exact ⟨e.move i .checking, by simp [step?, there, workerStep?], moved rfl, rfl, rfl⟩
      | false =>
        rcases wake with kept | reached
        · exact absurd here (h.kept kept i)
        · cases reached
    | _ => cases waits
  obtain ⟨later, e', run, actions, at_⟩ := Engine.exists_taking next (queue ▸ tasks)
  refine ⟨later ++ [⟨e, .worker i .wake⟩], e', (Run.start.step wakes).append run, ?_, epoch ▸ at_⟩
  rw [List.map_append, actions]
  rfl

/-- While a task waits, a wake-up is there for whoever waits, unless one is owed. -/
theorem Wakeable.hasWake (h : e.Wakeable) {p : Phase} (here : e.At i p) (waits : p.waits = true)
    (tasks : e.queue.tasks ≠ []) (paid : e.wakesOwed = 0) : e.HasWake p := by
  cases p with
  | parking =>
    rcases h.about i here tasks with kept | owed
    · exact .inl kept
    · exact absurd paid (Nat.ne_of_gt owed)
  | parked notified =>
    cases notified with
    | true => exact .inr rfl
    | false => exact absurd paid (Nat.ne_of_gt (h.asleep i here tasks))
  | _ => cases waits

/-- **A wake-up that is owed can be paid**, and is there then for whoever waits. -/
theorem exists_pay (one : e.OneInSlot) {p : Phase} {cancelled : Bool}
    (there : e.workers[i]? = some ⟨p, cancelled⟩) (waits : p.waits = true)
    (owed : 0 < e.wakesOwed) :
    ∃ e₁ p₁, e.step? .payWake = some e₁ ∧ e₁.workers[i]? = some ⟨p₁, cancelled⟩ ∧
      p₁.waits = true ∧ e₁.HasWake p₁ ∧ e₁.queue = e.queue ∧ e₁.epoch = e.epoch := by
  obtain ⟨n, owed⟩ := Nat.exists_eq_succ_of_ne_zero (Nat.ne_of_gt owed)
  have pays : e.step? .payWake = some { e with wakesOwed := n }.wakeOne := by
    change e.payWake = _
    rw [payWake, owed]
  have here : e.At i p := at_iff.mpr ⟨_, there, rfl⟩
  rcases wakeOne_cases { e with wakesOwed := n } with ⟨same, -⟩ | ⟨j, asleep, moved⟩
  · exact ⟨_, p, pays, by rw [same]; exact there, waits, .inl (by rw [same]), by rw [same],
      by rw [same]⟩
  · -- only the worker that waits can be the one that is asleep
    obtain rfl := one j i _ p asleep here rfl (inSlot_of_waits waits)
    refine ⟨_, .parked true, pays, ?_, rfl, .inr rfl, by rw [moved]; rfl, by rw [moved]; rfl⟩
    rw [moved, getElem?_move]
    change Option.map _ e.workers[j]? = _
    rw [there]
    rfl

/-! ## 5. No wake-up is lost -/

/-- What there is for worker `i` while it waits in a phase. -/
structure WakePending (past : List Moment) (e : Engine) (i : Nat) (p : Phase) : Prop where
  /-- As many wake-ups are owed as calls have queued a task and woken nobody yet. -/
  owed : (askedIn past).length = past.countP (·.action.isPay) + e.wakesOwed
  /-- If there are none such, no task waits, or a wake-up is kept or has reached the worker. -/
  pending : e.wakesOwed = 0 → e.queue.tasks = [] ∨ e.HasWake p
  /-- If there are, one can wake somebody, and then a wake-up is kept or has reached the worker. -/
  paid : 0 < e.wakesOwed → ∃ e₁ p₁, e.step? .payWake = some e₁ ∧
    e₁.workers[i]? = some ⟨p₁, false⟩ ∧ p₁.waits = true ∧ e₁.HasWake p₁
  /-- So the worker can take the task that comes next: it does not have to sit out the idle
      interval. -/
  takes : ∀ t ts, e.queue.tasks = t :: ts → ∃ later e', Run e later e' ∧
    later.map (·.action) = [.worker i .take, .worker i .look, .worker i .wake] ++
      (if e.wakesOwed = 0 then [] else [.payWake]) ∧
    e'.At i (.reading ⟨t, e.epoch⟩)

/-- **No wake-up is lost.** However calls that queue tasks, clear the cache, stop and start the
    engine have taken turns with each other and with the workers: whenever a worker that is not to
    stop waits for a task, asleep or about to fall asleep, then no task waits, or a wake-up is kept
    or has reached the worker; only while a call has queued its task and is yet to wake somebody,
    that wake-up is still to come, and when it does it is there for the worker. So a task never has
    to sit out the idle interval. -/
theorem Run.wakes_reach (run : Run (built settings store isAdvised bus) past e) {p : Phase}
    (there : e.workers[i]? = some ⟨p, false⟩) (waits : p.waits = true) :
    WakePending past e i p := by
  have here : e.At i p := at_iff.mpr ⟨_, there, rfl⟩
  have pending (paid : e.wakesOwed = 0) : e.queue.tasks = [] ∨ e.HasWake p := by
    by_cases tasks : e.queue.tasks = []
    · exact .inl tasks
    · exact .inr (run.wakeable.hasWake here waits tasks paid)
  refine ⟨run.wakes_owed, pending, fun owed => ?_, fun t ts tasks => ?_⟩
  · obtain ⟨e₁, p₁, pays, there₁, waits₁, wake, -, -⟩ := exists_pay run.oneInSlot there waits owed
    exact ⟨e₁, p₁, pays, there₁, waits₁, wake⟩
  · by_cases paid : e.wakesOwed = 0
    · have wake := (pending paid).resolve_left (by rw [tasks]; exact List.cons_ne_nil _ _)
      obtain ⟨later, e', takes, actions, at_⟩ :=
        run.wakeable.exists_taking there waits wake tasks
      exact ⟨later, e', takes, by rw [actions, if_pos paid, List.append_nil], at_⟩
    · obtain ⟨e₁, p₁, pays, there₁, waits₁, wake, queue, epoch⟩ :=
        exists_pay run.oneInSlot there waits (Nat.pos_of_ne_zero paid)
      obtain ⟨later, e', takes, actions, at_⟩ :=
        (run.step pays).wakeable.exists_taking there₁ waits₁ wake (queue ▸ tasks)
      refine ⟨later ++ [⟨e, .payWake⟩], e', (Run.start.step pays).append takes, ?_, epoch ▸ at_⟩
      rw [List.map_append, actions, if_neg paid]
      rfl

/-- A worker is woken for a task that is dropped, and told to stop: it passes the wake-up on, and
    the worker after it uses it up, finds no task, falls asleep and is woken for another. -/
def wokenTwice : List Action :=
  [.start, .worker 0 .enterSlot, .worker 0 .look, .worker 0 .take, .worker 0 .park,
   .request "a.ts" .medium .full, .payWake, .clear, .stop, .start, .worker 0 .heedStop,
   .worker 0 .leave, .worker 1 .enterSlot, .worker 1 .look, .worker 1 .take, .worker 1 .wake,
   .worker 1 .look, .worker 1 .take, .worker 1 .park, .request "b.ts" .medium .full, .payWake]

theorem wakes_reach_wokenTwice :
    ∃ past e, Run (built default (.memory .empty) false {}) past e ∧
      e.workers[1]? = some ⟨.parked true, false⟩ ∧ e.queue.tasks.map Task.path = ["b.ts"] ∧
      WakePending past e 1 (.parked true) := by
  obtain ⟨⟨past, e⟩, ht, facts⟩ := Option.map_eq_some_iff.mp (show
    (trace? wokenTwice ([], built default (.memory .empty) false {})).map (fun r =>
      (r.2.workers[1]?, r.2.queue.tasks.map Task.path)) =
        some (some ⟨.parked true, false⟩, ["b.ts"]) by decide)
  obtain ⟨there, waiting⟩ := Prod.mk.inj facts
  have run := Run.start.of_trace? ht
  exact ⟨past, e, run, there, waiting, run.wakes_reach there rfl⟩

/-- **A worker sleeps while a task waits and no wake-up is there for it**: the call that has queued
    the task is yet to wake somebody. -/
theorem asleep_beforeWake :
    ∃ past e, Run (built default (.memory .empty) false {}) past e ∧
      past.map (·.action) = (wokenTwice.take 6).reverse ∧
      e.workers[0]? = some ⟨.parked false, false⟩ ∧ e.queue.tasks.map Task.path = ["a.ts"] ∧
      e.wakesOwed = 1 ∧ ¬ (e.queue.tasks = [] ∨ e.HasWake (.parked false)) := by
  obtain ⟨⟨past, e⟩, ht, facts⟩ := Option.map_eq_some_iff.mp (show
    (trace? (wokenTwice.take 6) ([], built default (.memory .empty) false {})).map (fun r =>
      (r.2.workers[0]?, r.2.queue.tasks.map Task.path, r.2.wakesOwed, r.2.wakeKept)) =
        some (some ⟨.parked false, false⟩, ["a.ts"], 1, false) by decide)
  simp only [Prod.mk.injEq] at facts
  obtain ⟨there, waiting, owed, notKept⟩ := facts
  refine ⟨past, e, Run.start.of_trace? ht, by rw [actions_of_trace? ht]; rfl, there, waiting, owed,
    ?_⟩
  rintro (empty | kept | reached)
  · rw [empty] at waiting
    cases waiting
  · rw [notKept] at kept
    cases kept
  · cases reached

end Runs

end Engine

end CodeInsight
