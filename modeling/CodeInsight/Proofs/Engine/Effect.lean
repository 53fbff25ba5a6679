import CodeInsight.Proofs.Engine.Run

/-!
# What a step of the engine can do

* most steps leave every task, the cache, the store and the loads as they are (`SameWork`): waiting,
  waking, starting, stopping, shutting down;
* `Effect` lists what the others do, one constructor for each, with the engine after it written out;
  `effect_of_step` says that these are all, so no later proof opens `step?` again;
* where a step does its work is said by `Engine.At`: a worker in a phase.
-/

namespace CodeInsight

/-! ## 1. Lists -/

section Lists

variable {α : Type}

/-- Setting an element that is there leaves what is before and behind it. -/
theorem exists_split_set {l : List α} {i : Nat} {x : α} (h : l[i]? = some x) :
    ∃ l₁ l₂, l = l₁ ++ x :: l₂ ∧ ∀ y, l.set i y = l₁ ++ y :: l₂ := by
  induction l generalizing i with
  | nil => simp at h
  | cons z l ih =>
    cases i with
    | zero =>
      have hz : z = x := by simpa using h
      subst hz
      exact ⟨[], l, rfl, fun _ => rfl⟩
    | succ i =>
      obtain ⟨l₁, l₂, hl, hs⟩ := ih (by simpa using h)
      exact ⟨z :: l₁, l₂, by rw [hl]; rfl, fun y => by simp [hs y]⟩

/-- What is found with its number is there under the number. -/
theorem findSome?_zipIdx_eq_some {β : Type} {f : α → Option β} {l : List α} {i : Nat} {b : β}
    (h : (l.zipIdx.findSome? fun p => (f p.1).map fun b => (p.2, b)) = some (i, b)) :
    ∃ x, l[i]? = some x ∧ f x = some b := by
  obtain ⟨p, hp, hf⟩ := List.exists_of_findSome?_eq_some h
  obtain ⟨b', hb, hib⟩ := Option.map_eq_some_iff.mp hf
  cases hib
  exact ⟨p.1, List.mem_zipIdx_iff_getElem?.mp hp, hb⟩

end Lists

/-- Whether an action does no work whatever the engine is like. -/
def Action.isAside : Action → Bool
  | .payWake | .start | .stop | .shutdownBegins | .shutdownGoesOn _ | .tick _ => true
  | .worker _ .enterSlot | .worker _ .look | .worker _ .park | .worker _ .wake => true
  | .worker _ .idleOver | .worker _ .heedStop | .worker _ .finish | .worker _ .restOver => true
  | .worker _ .leave => true
  | _ => false

namespace Engine

/-! ## 2. Workers in their phases -/

@[simp] theorem phases_move (e : Engine) (i : Nat) (p : Phase) :
    (e.move i p).phases = e.phases.set i p := by
  refine List.ext_getElem? fun j => ?_
  by_cases hj : i = j
  · subst hj
    by_cases hi : i < e.workers.length
    · simp [phases, move, hi]
    · simp [phases, move, hi]
  · simp [phases, move, hj]

theorem at_iff {e : Engine} {i : Nat} {p : Phase} :
    e.At i p ↔ ∃ w, e.workers[i]? = some w ∧ w.phase = p := by
  simp [At, phases]

theorem At.unique {e : Engine} {i : Nat} {p q : Phase} (hp : e.At i p) (hq : e.At i q) : p = q :=
  Option.some.inj (hp.symm.trans hq)

theorem hand?_of_at {e : Engine} {i : Nat} {p : Phase} (h : e.At i p) :
    e.hand? i = p.assignment? := by
  rw [hand?, h]
  rfl

theorem at_of_hand? {e : Engine} {i : Nat} {a : Assignment} (h : e.hand? i = some a) :
    ∃ p, e.At i p ∧ p.assignment? = some a :=
  Option.bind_eq_some_iff.mp h

theorem waitsFor_eq_some {id : Nat} {w : Worker} {a : Assignment} :
    waitsFor id w = some a ↔ w.phase = .analysing a id := by
  unfold waitsFor
  cases w.phase <;> simp
  exact and_comm

/-- The worker that waits for a job is where it waits. -/
theorem at_of_waiter? {e : Engine} {id i : Nat} {a : Assignment}
    (h : e.waiter? id = some (i, a)) :
    e.At i (.analysing a id) := by
  obtain ⟨w, hw, ha⟩ := findSome?_zipIdx_eq_some h
  exact at_iff.mpr ⟨w, hw, waitsFor_eq_some.mp ha⟩

theorem not_at_of_waiter?_eq_none {e : Engine} {id : Nat} (h : e.waiter? id = none) (i : Nat)
    (a : Assignment) : ¬ e.At i (.analysing a id) := by
  intro hi
  obtain ⟨w, hw, hp⟩ := at_iff.mp hi
  have hn := List.findSome?_eq_none_iff.mp h (w, i) (List.mem_zipIdx_iff_getElem?.mpr hw)
  rw [waitsFor_eq_some.mpr hp] at hn
  cases hn

section Move

variable {e e' : Engine} {i : Nat} {p₀ p : Phase}

/-- A worker that was moved is where it was moved to, and the others are where they were. -/
theorem at_of_move (hp : e'.phases = e.phases.set i p) (h : e.At i p₀) {j : Nat} {q : Phase} :
    e'.At j q ↔ if j = i then q = p else e.At j q := by
  obtain ⟨hlt, -⟩ := List.getElem?_eq_some_iff.mp h
  by_cases hj : j = i
  · subst hj
    simp [At, hp, hlt, eq_comm]
  · simp [At, hp, hj, Ne.symm hj]

theorem at_moved (hp : e'.phases = e.phases.set i p) (h : e.At i p₀) : e'.At i p :=
  (at_of_move hp h).mpr (by rw [if_pos rfl])

/-- Who is in another phase than the worker that was moved is left where it is. -/
theorem at_stays (hp : e'.phases = e.phases.set i p) (h : e.At i p₀) {j : Nat} {q : Phase}
    (hq : e.At j q) (other : p₀ ≠ q) : e'.At j q := by
  rw [at_of_move hp h, if_neg]
  · exact hq
  · rintro rfl
    exact other (h.unique hq)

theorem hand?_of_move (hp : e'.phases = e.phases.set i p) (h : e.At i p₀) (j : Nat) :
    e'.hand? j = if j = i then p.assignment? else e.hand? j := by
  obtain ⟨hlt, -⟩ := List.getElem?_eq_some_iff.mp h
  by_cases hj : j = i
  · subst hj
    simp [hand?, hp, hlt]
  · simp [hand?, hp, hj, Ne.symm hj]

/-- Moving a worker puts the task of the new phase in the place of that of the old one. -/
theorem count_inHand_of_move (hp : e'.phases = e.phases.set i p) (h : e.At i p₀) (t : Task) :
    e'.inHand.count t + p₀.task?.toList.count t =
      e.inHand.count t + p.task?.toList.count t := by
  obtain ⟨l₁, l₂, hl, hs⟩ := exists_split_set h
  have count_split (q : Phase) : ((l₁ ++ q :: l₂).filterMap Phase.task?).count t =
      (l₁.filterMap Phase.task?).count t + q.task?.toList.count t +
        (l₂.filterMap Phase.task?).count t := by
    cases hq : q.task? <;> simp [hq, List.count_cons]
    omega
  rw [inHand, inHand, hp, hs, hl, count_split, count_split]
  omega

end Move

/-! ## 3. One worker in the slot -/

/-- At most one worker is in the slot. -/
def OneInSlot (e : Engine) : Prop :=
  ∀ i j p q, e.At i p → e.At j q → p.inSlot = true → q.inSlot = true → i = j

theorem slotTaken_eq_false {e : Engine} (h : e.slotTaken = false) {i : Nat} {p : Phase}
    (hp : e.At i p) : p.inSlot = false := by
  obtain ⟨w, hw, rfl⟩ := at_iff.mp hp
  have hall := List.any_eq_false.mp h w (List.mem_of_getElem? hw)
  simpa [Worker.inSlot] using hall

section Slot

variable {e e' : Engine} {i : Nat} {p₀ p : Phase}

/-- A worker that was in the slot, or that enters a free one, may move to any phase. -/
theorem OneInSlot.move (hs : e.OneInSlot) (hp : e'.phases = e.phases.set i p) (h : e.At i p₀)
    (enters : p₀.inSlot = true ∨ e.slotTaken = false) : e'.OneInSlot := by
  intro j k q r hq hr hqs hrs
  rw [at_of_move hp h] at hq hr
  have alone : ∀ n s, e.At n s → s.inSlot = true → n = i := by
    intro n s hn hns
    rcases enters with h₀ | free
    · exact hs n i s p₀ hn h hns h₀
    · rw [slotTaken_eq_false free hn] at hns
      cases hns
  split at hq <;> split at hr
  · subst_vars; rfl
  · subst_vars; exact (alone k r hr hrs).symm
  · subst_vars; exact alone j q hq hqs
  · exact hs j k q r hq hr hqs hrs

/-- A worker that leaves the slot leaves it to one at most. -/
theorem OneInSlot.leave (hs : e.OneInSlot) (h : e.At i p₀) (hp : p.inSlot = false) :
    (e.move i p).OneInSlot := by
  intro j k q r hq hr hqs hrs
  rw [at_of_move (phases_move e i p) h] at hq hr
  split at hq
  · rw [hq, hp] at hqs; cases hqs
  · split at hr
    · rw [hr, hp] at hrs; cases hrs
    · exact hs j k q r hq hr hqs hrs

/-- Only the phases count. -/
theorem OneInSlot.of_phases (hs : e.OneInSlot) (h : e'.phases = e.phases) : e'.OneInSlot := by
  unfold OneInSlot At at hs ⊢
  rw [h]
  exact hs

end Slot

/-! ## 4. Steps that do no work -/

/-- Between two engines nothing has happened to tasks, insights and loads. -/
structure SameWork (e e' : Engine) : Prop where
  settings : e'.settings = e.settings
  store : e'.store = e.store
  queue : e'.queue = e.queue
  cache : e'.cache = e.cache
  epoch : e'.epoch = e.epoch
  jobs : e'.jobs = e.jobs
  jobCount : e'.jobCount = e.jobCount
  loads : e'.loads = e.loads
  history : e'.history = e.history
  inHand : e'.inHand = e.inHand
  /-- The same workers are at the same places of their tasks. -/
  busy : ∀ i p, p.assignment? ≠ none → (e'.At i p ↔ e.At i p)

theorem SameWork.refl (e : Engine) : SameWork e e :=
  ⟨rfl, rfl, rfl, rfl, rfl, rfl, rfl, rfl, rfl, rfl, fun _ _ _ => Iff.rfl⟩

theorem SameWork.trans {e e₁ e₂ : Engine} (h : SameWork e e₁) (h' : SameWork e₁ e₂) :
    SameWork e e₂ where
  settings := h'.settings.trans h.settings
  store := h'.store.trans h.store
  queue := h'.queue.trans h.queue
  cache := h'.cache.trans h.cache
  epoch := h'.epoch.trans h.epoch
  jobs := h'.jobs.trans h.jobs
  jobCount := h'.jobCount.trans h.jobCount
  loads := h'.loads.trans h.loads
  history := h'.history.trans h.history
  inHand := h'.inHand.trans h.inHand
  busy i p hp := (h'.busy i p hp).trans (h.busy i p hp)

/-- A worker without a task moves on without one. -/
theorem sameWork_move {e : Engine} {i : Nat} {p₀ p : Phase} (h : e.At i p₀)
    (hp₀ : p₀.assignment? = none) (hp : p.assignment? = none) : SameWork e (e.move i p) where
  settings := rfl
  store := rfl
  queue := rfl
  cache := rfl
  epoch := rfl
  jobs := rfl
  jobCount := rfl
  loads := rfl
  history := rfl
  inHand := by
    obtain ⟨l₁, l₂, hl, hs⟩ := exists_split_set h
    rw [inHand, inHand, phases_move, hs, hl]
    simp [Phase.task?, hp₀, hp]
  busy j q hq := by
    rw [at_of_move (phases_move e i p) h]
    split
    · rename_i hj
      subst hj
      constructor
      · rintro rfl; exact absurd hp hq
      · intro hq'
        rw [hq'.unique h] at hq
        exact absurd hp₀ hq
    · exact Iff.rfl

/-- Other things may change while no worker does. -/
theorem sameWork_of_eq {e e' : Engine}
    (he : e' = { e with
      wakeKept := e'.wakeKept, wakesOwed := e'.wakesOwed, loop := e'.loop, handles := e'.handles,
      latest := e'.latest, shutdowns := e'.shutdowns, now := e'.now }) : SameWork e e' := by
  rw [he]
  exact ⟨rfl, rfl, rfl, rfl, rfl, rfl, rfl, rfl, rfl, rfl, fun _ _ _ => Iff.rfl⟩

/-- A wake-up reaches at most a worker that waits. -/
theorem sameWork_wakeOne (e : Engine) : SameWork e e.wakeOne := by
  unfold wakeOne
  split
  · rename_i i hi
    obtain ⟨hlt, asleep, -⟩ := List.findIdx?_eq_some_iff_getElem.mp hi
    have hw : e.At i (e.workers[i]).phase := at_iff.mpr ⟨_, List.getElem?_eq_getElem hlt, rfl⟩
    refine sameWork_move hw ?_ rfl
    revert asleep
    cases (e.workers[i]).phase <;> simp [Phase.isAsleep, Phase.assignment?]
  · exact sameWork_of_eq rfl

theorem OneInSlot.wakeOne {e : Engine} (hs : e.OneInSlot) : e.wakeOne.OneInSlot := by
  unfold Engine.wakeOne
  split
  · rename_i i hi
    obtain ⟨hlt, asleep, -⟩ := List.findIdx?_eq_some_iff_getElem.mp hi
    have hw : e.At i (e.workers[i]).phase := at_iff.mpr ⟨_, List.getElem?_eq_getElem hlt, rfl⟩
    refine hs.move (phases_move e i _) hw (.inl ?_)
    revert asleep
    cases (e.workers[i]).phase <;> simp [Phase.isAsleep, Phase.inSlot]
  · exact hs.of_phases rfl

/-! ## 5. Small changes, written out -/

/-- Among what happened no event was published. -/
def Silent (hs : List Happening) : Prop := hs.filterMap Happening.event? = []

theorem silent_nil : Silent [] := rfl

theorem silent_map_reverse {α : Type} (f : α → Happening) (h : ∀ x, (f x).event? = none)
    (xs : List α) : Silent (xs.map f).reverse := by
  refine List.filterMap_eq_nil_iff.mpr fun y hy => ?_
  obtain ⟨x, -, rfl⟩ := List.mem_map.mp (List.mem_reverse.mp hy)
  exact h x

theorem Silent.cons {h : Happening} {hs : List Happening} (hh : h.event? = none)
    (hhs : Silent hs) : Silent (h :: hs) := by
  simpa [Silent, hh] using hhs

/-- Recording one thing after the other puts them all into the history. -/
theorem foldl_record {α : Type} (f : α → Happening) (xs : List α) (e : Engine) :
    xs.foldl (fun e x => e.record (f x)) e =
      { e with history := (xs.map f).reverse ++ e.history } := by
  induction xs generalizing e with
  | nil => rfl
  | cons x xs ih =>
    rw [List.foldl_cons, ih]
    simp [record]

theorem log_eq (e : Engine) (ls : List LogLine) :
    e.log ls = { e with history := (ls.map .logged).reverse ++ e.history } :=
  foldl_record .logged ls e

theorem propose_eq (e : Engine) (path : String) (cs : List Analysis.Candidate) :
    e.propose path cs =
      { e with history := (cs.map fun c => .proposed ⟨path, c⟩).reverse ++ e.history } :=
  foldl_record (fun c => .proposed ⟨path, c⟩) cs e

/-- Publishing calls handlers, which may change the bus and tell of themselves, and then the event
    is published. -/
theorem publish_eq (e : Engine) (event : Event) :
    ∃ bus hs, Silent hs ∧
      e.publish event =
        { e with bus := bus, history := .published event :: (hs ++ e.history) } := by
  refine ⟨(e.bus.publish event).takeNotices.2, _, silent_map_reverse .noticed (fun _ => rfl)
    (e.bus.publish event).takeNotices.1, ?_⟩
  unfold publish
  dsimp only
  rw [foldl_record]
  rfl

/-- A worker that tells of something publishes an event that settles, and moves on. -/
theorem tell?_eq_some {e e' : Engine} {i : Nat} {event : Event} {p : Phase}
    (h : e.tell? i event p = some e') :
    e.bus.settles event = true ∧ e' = (e.publish event).move i p := by
  unfold tell? at h
  split at h
  case isTrue settles => exact ⟨settles, (Option.some.inj h).symm⟩
  case isFalse => cases h

theorem cacheIfCurrent_of_eq {e : Engine} {epoch : Nat} {path : String} {insights : List Insight}
    (h : e.epoch = epoch) :
    e.cacheIfCurrent epoch path insights =
      (true, { e with
        cache := e.cache.set path insights
        history := .cached path insights :: e.history }) := by
  simp [cacheIfCurrent, h, record]

theorem cacheIfCurrent_of_ne {e : Engine} {epoch : Nat} {path : String} {insights : List Insight}
    (h : e.epoch ≠ epoch) : e.cacheIfCurrent epoch path insights = (false, e) := by
  simp [cacheIfCurrent, h]

/-! ## 6. What a step can do -/

/-- **What a step can do**, with the engine after it. -/
inductive Effect (e : Engine) : Action → Engine → Prop where
  | aside {a : Action} {e' : Engine} (ha : a.isAside = true)
      (idle : (Moment.mk e a).hand? = none) (same : SameWork e e')
      (slot : e.OneInSlot → e'.OneInSlot) : Effect e a e'
  | takeNothing {i : Nat} (h : e.At i .taking) (empty : e.queue.tasks = []) :
      Effect e (.worker i .take) (e.move i .parking)
  | take {i : Nat} {t : Task} {ts : List Task} (h : e.At i .taking)
      (head : e.queue.tasks = t :: ts) :
      Effect e (.worker i .take)
        ({ e with
          queue := ⟨ts, e.queue.lastTime⟩
          loop := ⟨.processing, some t.path⟩
          history := .taken i t :: e.history }.move i (.reading ⟨t, e.epoch⟩))
  | request {path : String} {priority : Priority} {kind : TaskKind} {time : Instant}
      {hs : List Happening} (ht : e.queue.nextTime? e.now = some time) (silent : Silent hs) :
      Effect e (.request path priority kind)
        { e with
          queue := ⟨TaskQueue.insert (Task.of path priority kind time)
            (e.queue.remove path).2.tasks, some time⟩
          wakesOwed := e.wakesOwed + 1
          history := hs ++ e.history }
  | requestBreaksOff {path : String} {priority : Priority} {kind : TaskKind}
      {hs : List Happening} (ht : e.queue.nextTime? e.now = none) (silent : Silent hs) :
      Effect e (.request path priority kind)
        { e with queue := (e.queue.remove path).2, history := hs ++ e.history }
  | clear :
      Effect e .clear
        { e with
          epoch := e.epoch + 1
          cache := Table.empty
          queue := e.queue.clear.2
          history := .dropped e.queue.tasks :: e.history }
  | loadBegins {path : String} :
      Effect e (.loadBegins path) { e with loads := e.loads ++ [⟨path, .begun e.epoch⟩] }
  | loadAnswered {k epoch : Nat} {path : String} {fault : Option StoreFault}
      {found : Except StoreFault (Option (List Insight))} {hs : List Happening}
      (h : e.loads[k]? = some ⟨path, .begun epoch⟩)
      (answer : found = match fault with
        | some f => .error f
        | none => (e.store.load path).1) (silent : Silent hs) :
      Effect e (.loadAnswered k fault)
        { e with loads := e.loads.set k ⟨path, .answered epoch found⟩, history := hs ++ e.history }
  | loadCached {k : Nat} {path : String} {insights : List Insight}
      (h : e.loads[k]? = some ⟨path, .answered e.epoch (.ok (some insights))⟩) :
      Effect e (.loadReturns k)
        { e with
          loads := e.loads.set k ⟨path, .returned insights⟩
          cache := e.cache.set path insights
          history := .cached path insights :: e.history }
  | loadNotCached {k epoch : Nat} {path : String}
      {found : Except StoreFault (Option (List Insight))} {insights : List Insight}
      {hs : List Happening} (h : e.loads[k]? = some ⟨path, .answered epoch found⟩)
      (outdated : ∀ is, found = .ok (some is) → e.epoch ≠ epoch) (silent : Silent hs) :
      Effect e (.loadReturns k)
        { e with loads := e.loads.set k ⟨path, .returned insights⟩, history := hs ++ e.history }
  | content {i : Nat} {a : Assignment} {text : String} (h : e.At i (.reading a)) :
      Effect e (.worker i (.endReading (.content text)))
        ({ e with
          jobs := e.jobs ++ [Job.mk e.jobCount a.path text]
          jobCount := e.jobCount + 1 }.move i (.analysing a e.jobCount))
  | unreadable {i : Nat} {a : Assignment} {cause : FileFault} {fault : EngineFault}
      {hs : List Happening} (h : e.At i (.reading a)) (silent : Silent hs) :
      Effect e (.worker i (.endReading (.fault cause)))
        ({ e with history := hs ++ e.history }.move i (.refusing a fault))
  | outOfTime {i : Nat} {p : Phase} {a : Assignment} {fault : EngineFault} {hs : List Happening}
      (h : e.At i p) (hp : p = .reading a ∨ ∃ job, p = .analysing a job) (silent : Silent hs) :
      Effect e (.worker i .runOutOfTime)
        ({ e with history := hs ++ e.history }.move i (.refusing a fault))
  | announce {i : Nat} {a : Assignment} {r : AnalysisResult} {signal : Signal}
      {left : List Signal} {bus : EventBus} {hs : List Happening}
      (h : e.At i (.announcing a r (signal :: left))) (silent : Silent hs) :
      Effect e (.worker i .announce)
        ({ e with
          bus := bus
          history := .published (.detected a.path signal e.now) :: (hs ++ e.history) }.move i
            (.announcing a r left))
  | cached {i : Nat} {a : Assignment} {r : AnalysisResult} (h : e.At i (.announcing a r []))
      (current : e.epoch = a.epoch) :
      Effect e (.worker i .cache)
        ({ e with
          cache := e.cache.set a.path r.insights
          history := .cached a.path r.insights :: e.history }.move i (.advising a r true))
  | notCached {i : Nat} {a : Assignment} {r : AnalysisResult} (h : e.At i (.announcing a r []))
      (outdated : e.epoch ≠ a.epoch) :
      Effect e (.worker i .cache) (e.move i (.advising a r false))
  | advise {i : Nat} {a : Assignment} {r : AnalysisResult} {current : Bool}
      {breaksAt : Option Nat} {hs : List Happening} (h : e.At i (.advising a r current))
      (silent : Silent hs) :
      Effect e (.worker i (.advise breaksAt))
        ({ e with history := hs ++ e.history }.move i (.closing a r current))
  | close {i : Nat} {a : Assignment} {r : AnalysisResult} {current : Bool} {bus : EventBus}
      {hs : List Happening} (h : e.At i (.closing a r current)) (silent : Silent hs) :
      Effect e (.worker i .close)
        ({ e with
          bus := bus
          history := .published (.completed a.path r.insights e.now) :: (hs ++ e.history) }.move i
            (if current then .saving a r.insights else .finishing))
  | saved {i : Nat} {a : Assignment} {insights : List Insight} {store : InsightStore}
      (h : e.At i (.saving a insights))
      (done : e.store.save a.path insights e.now = (.ok (), store)) :
      Effect e (.worker i (.save .tried))
        ({ e with store := store, history := .saved a.path insights :: e.history }.move i
          .finishing)
  | notSaved {i : Nat} {a : Assignment} {insights : List Insight} {outcome : SaveOutcome}
      {store : InsightStore} {hs : List Happening} (h : e.At i (.saving a insights))
      (failed : store = e.store ∨
        ∃ cause, e.store.save a.path insights e.now = (.error cause, store)) (silent : Silent hs) :
      Effect e (.worker i (.save outcome))
        ({ e with store := store, history := hs ++ e.history }.move i .finishing)
  | emptied {i : Nat} {a : Assignment} {fault : EngineFault} (h : e.At i (.refusing a fault))
      (current : e.epoch = a.epoch) :
      Effect e (.worker i .refuse)
        ({ e with
          cache := e.cache.set a.path []
          history := .cached a.path [] :: e.history }.move i (.reporting a fault))
  | notEmptied {i : Nat} {a : Assignment} {fault : EngineFault} (h : e.At i (.refusing a fault))
      (outdated : e.epoch ≠ a.epoch) :
      Effect e (.worker i .refuse) (e.move i (.reporting a fault))
  | report {i : Nat} {a : Assignment} {fault : EngineFault} {bus : EventBus}
      {hs : List Happening} (h : e.At i (.reporting a fault)) (silent : Silent hs) :
      Effect e (.worker i .report)
        ({ e with
          bus := bus
          history := .published (.failed a.path fault.message e.now) :: (hs ++ e.history) }.move i
            .finishing)
  | breakdown {i : Nat} {s : WorkerStep} {p : Phase} {hs : List Happening} (h : e.At i p)
      (busy : p.assignment? ≠ none) (unsound : (Action.worker i s).isSound = false)
      (silent : Silent hs) :
      Effect e (.worker i s) ({ e with history := hs ++ e.history }.move i .broken)
  | analysed {id i : Nat} {a : Assignment} {job : Job} {o : Outline} (there : job ∈ e.jobs)
      (hid : job.id = id) (waits : e.waiter? id = some (i, a)) :
      Effect e (.endJob id (.outline o))
        ({ e with
          jobs := e.jobs.filter fun j => j.id != id
          serial := (e.analyse job o).2.serial }.move i
            (.announcing a (e.analyse job o).1 (e.analyse job o).1.signals))
  | notAnalysed {id i : Nat} {a : Assignment} {outcome : JobOutcome} {fault : EngineFault}
      {hs : List Happening} (waits : e.waiter? id = some (i, a)) (silent : Silent hs) :
      Effect e (.endJob id outcome)
        ({ e with jobs := e.jobs.filter fun j => j.id != id, history := hs ++ e.history }.move i
          (.refusing a fault))
  | jobLost {id : Nat} {outcome : JobOutcome} (nobody : e.waiter? id = none) :
      Effect e (.endJob id outcome) { e with jobs := e.jobs.filter fun j => j.id != id }

/-! ## 7. These are all -/

section Inversion

variable {e e' : Engine} {i : Nat}

/-- A worker without a task moves on without one. -/
theorem effect_move {s : WorkerStep} {p₀ p : Phase} (h : e.At i p₀)
    (hp₀ : p₀.assignment? = none) (hp : p.assignment? = none)
    (enters : p₀.inSlot = true ∨ e.slotTaken = false)
    (hs : (Action.worker i s).isAside = true) : Effect e (.worker i s) (e.move i p) :=
  .aside hs ((hand?_of_at h).trans hp₀) (sameWork_move h hp₀ hp) fun one =>
    one.move (phases_move e i p) h enters

/-- A worker stops waiting, and a wake-up that has reached it is passed on. -/
theorem effect_abandon {s : WorkerStep} {notified : Bool} {p : Phase}
    (h : e.At i (.parked notified)) (hp : p.assignment? = none)
    (hs : (Action.worker i s).isAside = true) :
    Effect e (.worker i s) (e.abandon i notified p) := by
  have same : SameWork e (e.move i p) := sameWork_move h rfl hp
  have slot (one : e.OneInSlot) : (e.move i p).OneInSlot :=
    one.move (phases_move e i p) h (.inl rfl)
  unfold abandon
  cases notified with
  | false => exact .aside hs (hand?_of_at h) same slot
  | true =>
    exact .aside hs (hand?_of_at h) (same.trans (sameWork_wakeOne _)) fun one => (slot one).wakeOne

theorem effect_take (h : e.At i .taking) : Effect e (.worker i .take) (e.take i) := by
  unfold take TaskQueue.dequeue
  cases hq : e.queue.tasks with
  | nil => exact .takeNothing h hq
  | cons t ts => exact .take h hq

theorem effect_endReading {a : Assignment} (h : e.At i (.reading a)) :
    ∀ outcome, Effect e (.worker i (.endReading outcome)) (e.endReading i a outcome)
  | .content _ => .content h
  | .fault cause => by
    simp only [endReading, fail, log_eq]
    exact .unreadable h (silent_map_reverse _ (fun _ => rfl) _)
  | .breakdown => .breakdown h (by simp [Phase.assignment?]) rfl silent_nil

theorem effect_runOutOfTime {p : Phase} {a : Assignment} (h : e.At i p)
    (hp : p = .reading a ∨ ∃ job, p = .analysing a job)
    (hs : (e.settings.analysisTimeout.map fun after =>
      e.fail i a (.timedOut a.path after)) = some e') :
    Effect e (.worker i .runOutOfTime) e' := by
  obtain ⟨after, -, rfl⟩ := Option.map_eq_some_iff.mp hs
  simp only [fail, log_eq]
  exact .outOfTime h hp (silent_map_reverse _ (fun _ => rfl) _)

theorem effect_advise {a : Assignment} {r : AnalysisResult} {current : Bool}
    (h : e.At i (.advising a r current)) (breaksAt : Option Nat) :
    Effect e (.worker i (.advise breaksAt)) (e.advise i a r current breaksAt) := by
  have proposed (path : String) (cs : List Analysis.Candidate) :
      Silent (cs.map fun c => .proposed ⟨path, c⟩).reverse :=
    silent_map_reverse _ (fun _ => rfl) cs
  unfold advise
  split
  · split
    · split
      · rw [propose_eq]
        exact .breakdown h (by simp [Phase.assignment?]) rfl (proposed _ _)
      · rw [propose_eq]
        exact .advise h (proposed _ _)
    · rw [propose_eq]
      exact .advise h (proposed _ _)
  · exact .advise h silent_nil

theorem effect_saveInsights {a : Assignment} {insights : List Insight}
    (h : e.At i (.saving a insights)) :
    ∀ outcome, Effect e (.worker i (.save outcome)) (e.saveInsights i a.path insights outcome)
  | .tried => by
    unfold saveInsights
    dsimp only
    split
    · rename_i hd
      exact .saved h hd
    · rename_i cause store hd
      simp only [log_eq]
      exact .notSaved h (.inr ⟨cause, hd⟩) (silent_map_reverse _ (fun _ => rfl) _)
  | .fault cause => by
    simp only [saveInsights, log_eq]
    exact .notSaved h (.inl rfl) (silent_map_reverse _ (fun _ => rfl) _)
  | .breakdown => .breakdown h (by simp [Phase.assignment?]) rfl silent_nil

/-- **Every step of a worker** is among the effects. -/
theorem effect_of_workerStep {w : Worker} {s : WorkerStep} (hw : e.workers[i]? = some w)
    (hs : e.workerStep? i w s = some e') : Effect e (.worker i s) e' := by
  have here {p : Phase} (hp : w.phase = p) : e.At i p := at_iff.mpr ⟨w, hw, hp⟩
  unfold workerStep? at hs
  split at hs
  · rename_i hp -- queueing, enterSlot
    split at hs
    · cases hs
    · rename_i free
      cases hs
      exact effect_move (here hp) rfl rfl (.inr (by simpa using free)) rfl
  · rename_i hp -- checking, look
    cases hs
    refine effect_move (here hp) rfl ?_ (.inl rfl) rfl
    split <;> rfl
  · rename_i hp -- taking, take
    cases hs
    exact effect_take (here hp)
  · rename_i hp -- parking, park
    split at hs
    · cases hs
    · cases hs
      exact effect_move (here hp) rfl rfl (.inl rfl) rfl
  · rename_i hp -- parking, wake
    split at hs
    · cases hs
      have h : At { e with wakeKept := false } i .parking := here hp
      exact .aside rfl (hand?_of_at h) ((sameWork_of_eq rfl).trans (sameWork_move h rfl rfl))
        fun one => (one.of_phases rfl).move (phases_move _ i _) h (.inl rfl)
    · cases hs
  · rename_i hp -- parking, idleOver
    cases hs
    exact effect_move (here hp) rfl rfl (.inl rfl) rfl
  · rename_i hp -- parking, heedStop
    split at hs
    · cases hs
      exact effect_move (here hp) rfl rfl (.inl rfl) rfl
    · cases hs
  · rename_i notified hp -- parked, wake
    split at hs
    · cases hs
      exact effect_move (here hp) rfl rfl (.inl rfl) rfl
    · cases hs
  · rename_i notified hp -- parked, idleOver
    cases hs
    exact effect_abandon (here hp) rfl rfl
  · rename_i notified hp -- parked, heedStop
    split at hs
    · cases hs
      exact effect_abandon (here hp) rfl rfl
    · cases hs
  · rename_i a outcome hp -- reading, endReading
    cases hs
    exact effect_endReading (here hp) outcome
  · rename_i a hp -- reading, runOutOfTime
    exact effect_runOutOfTime (here hp) (.inl rfl) hs
  · rename_i a job hp -- analysing, runOutOfTime
    exact effect_runOutOfTime (here hp) (.inr ⟨job, rfl⟩) hs
  · rename_i a r signal left hp -- announcing, announce
    obtain ⟨-, rfl⟩ := tell?_eq_some hs
    obtain ⟨bus, hs, silent, hpub⟩ := e.publish_eq (.detected a.path signal e.now)
    rw [hpub]
    exact .announce (here hp) silent
  · rename_i a r hp -- announcing, cache
    by_cases current : e.epoch = a.epoch
    · rw [cacheIfCurrent_of_eq current] at hs
      cases hs
      exact .cached (here hp) current
    · rw [cacheIfCurrent_of_ne current] at hs
      cases hs
      exact .notCached (here hp) current
  · rename_i a r current breaksAt hp -- advising, advise
    cases hs
    exact effect_advise (here hp) breaksAt
  · rename_i a r current hp -- closing, close
    obtain ⟨-, rfl⟩ := tell?_eq_some hs
    obtain ⟨bus, hs, silent, hpub⟩ := e.publish_eq (.completed a.path r.insights e.now)
    rw [hpub]
    exact .close (here hp) silent
  · rename_i a insights outcome hp -- saving, save
    cases hs
    exact effect_saveInsights (here hp) outcome
  · rename_i a fault hp -- refusing, refuse
    cases hs
    by_cases current : e.epoch = a.epoch
    · rw [cacheIfCurrent_of_eq current]
      exact .emptied (here hp) current
    · rw [cacheIfCurrent_of_ne current]
      exact .notEmptied (here hp) current
  · rename_i a fault hp -- reporting, report
    obtain ⟨-, rfl⟩ := tell?_eq_some hs
    obtain ⟨bus, hs, silent, hpub⟩ := e.publish_eq (.failed a.path fault.message e.now)
    rw [hpub]
    exact .report (here hp) silent
  · rename_i hp -- finishing, finish
    cases hs
    have h : e.seenIdle.At i .finishing := here hp
    exact .aside rfl (hand?_of_at h) ((sameWork_of_eq rfl).trans (sameWork_move h rfl rfl))
      fun one => (one.of_phases rfl).move (phases_move _ i _) h (.inl rfl)
  · rename_i hp -- resting, restOver
    cases hs
    exact effect_move (here hp) rfl rfl (.inl rfl) rfl
  · rename_i hp -- resting, heedStop
    split at hs
    · cases hs
      exact effect_move (here hp) rfl rfl (.inl rfl) rfl
    · cases hs
  · rename_i hp -- leaving, leave
    cases hs
    have h : e.seenIdle.At i .leaving := here hp
    exact .aside rfl (hand?_of_at h) ((sameWork_of_eq rfl).trans (sameWork_move h rfl rfl))
      fun one => (one.of_phases rfl).leave h rfl
  · cases hs

/-- A worker that waits for the slot comes after all others. -/
theorem at_of_phases_append (hp : e'.phases = e.phases ++ [.queueing]) {j : Nat} {q : Phase}
    (hq : q ≠ .queueing) : e'.At j q ↔ e.At j q := by
  unfold At
  rw [hp, List.getElem?_append]
  split
  · rfl
  · rename_i hj
    rw [List.getElem?_eq_none (Nat.le_of_not_lt hj)]
    refine ⟨fun h => ?_, fun h => by cases h⟩
    have hm : q ∈ [Phase.queueing] := List.mem_of_getElem? h
    exact absurd (List.mem_singleton.mp hm) hq

/-- Starting adds a worker that has no task. -/
theorem effect_start : Effect e .start e.start := by
  unfold start
  split
  · exact .aside rfl rfl (.refl e) id
  · refine .aside rfl rfl ⟨rfl, rfl, rfl, rfl, rfl, rfl, rfl, rfl, rfl, ?_, fun j q hq => ?_⟩ ?_
    · simp [inHand, phases, Phase.task?, Phase.assignment?]
    · exact at_of_phases_append (by simp [phases]) (by rintro rfl; exact hq rfl)
    · intro one j k q r hq hr hqs hrs
      rw [at_of_phases_append (e := e) (by simp [phases]) (by rintro rfl; cases hqs)] at hq
      rw [at_of_phases_append (e := e) (by simp [phases]) (by rintro rfl; cases hrs)] at hr
      exact one j k q r hq hr hqs hrs

theorem phases_stop (e : Engine) : e.stop.phases = e.phases := by
  unfold stop
  split
  · rename_i i _
    refine List.ext_getElem? fun j => ?_
    by_cases hj : i = j
    · simp [phases, hj, Option.map_map, Function.comp_def]
    · simp [phases, hj]
  · rfl

theorem sameWork_stop (e : Engine) : SameWork e e.stop := by
  have hi : e.stop.inHand = e.inHand := by rw [inHand, inHand, phases_stop]
  have hb (j : Nat) (q : Phase) : e.stop.At j q ↔ e.At j q := by rw [At, At, phases_stop]
  unfold stop at hi hb ⊢
  cases hl : e.latest with
  | none => exact .refl e
  | some i =>
    rw [hl] at hi hb
    exact ⟨rfl, rfl, rfl, rfl, rfl, rfl, rfl, rfl, rfl, hi, fun j q _ => hb j q⟩

theorem effect_shutdownGoesOn {k : Nat} (hs : e.shutdownGoesOn k = some e') :
    Effect e (.shutdownGoesOn k) e' := by
  unfold shutdownGoesOn at hs
  split at hs
  · cases hs
    exact .aside rfl rfl ((sameWork_stop e).trans (sameWork_of_eq rfl))
      fun one => (one.of_phases e.phases_stop).of_phases rfl
  · cases hs
    exact .aside rfl rfl (sameWork_of_eq rfl) fun one => one.of_phases rfl
  · split at hs
    · cases hs
      exact .aside rfl rfl (sameWork_of_eq rfl) fun one => one.of_phases rfl
    · cases hs
  · cases hs

theorem effect_payWake (hs : e.payWake = some e') : Effect e .payWake e' := by
  unfold payWake at hs
  split at hs
  · cases hs
  · rename_i n _
    cases hs
    have slot (one : e.OneInSlot) : OneInSlot { e with wakesOwed := n } := one.of_phases rfl
    exact .aside rfl rfl ((sameWork_of_eq rfl).trans (sameWork_wakeOne _)) fun one =>
      (slot one).wakeOne

theorem effect_loadAnswered {k : Nat} {fault : Option StoreFault}
    (hs : e.loadAnswered k fault = some e') : Effect e (.loadAnswered k fault) e' := by
  unfold loadAnswered at hs
  split at hs
  · rename_i path epoch hk
    cases fault with
    | none =>
      cases hs
      rw [log_eq]
      exact .loadAnswered hk rfl (silent_map_reverse _ (fun _ => rfl) _)
    | some f =>
      cases hs
      exact .loadAnswered hk rfl silent_nil
  · cases hs

theorem effect_loadReturns {k : Nat} (hs : e.loadReturns k = some e') :
    Effect e (.loadReturns k) e' := by
  unfold loadReturns at hs
  split at hs
  · rename_i path epoch found hk
    split at hs
    · rename_i insights
      cases hs
      by_cases current : e.epoch = epoch
      · subst current
        rw [cacheIfCurrent_of_eq rfl]
        exact .loadCached hk
      · rw [cacheIfCurrent_of_ne current]
        exact .loadNotCached hk (fun _ _ => current) silent_nil
    · cases hs
      exact .loadNotCached hk (fun _ h => by cases h) silent_nil
    · cases hs
      rw [log_eq]
      exact .loadNotCached hk (fun _ h => by cases h) (silent_map_reverse _ (fun _ => rfl) _)
  · cases hs

theorem effect_request (path : String) (priority : Priority) (kind : TaskKind)
    (hs : e.step? (.request path priority kind) = some e') :
    Effect e (.request path priority kind) e' := by
  simp only [step?] at hs
  split at hs
  · rename_i htime
    obtain ⟨time, ht⟩ := Option.isSome_iff_exists.mp htime
    cases hs
    have hn : e.queue.nextTime e.now = time := by simp [TaskQueue.nextTime, ht]
    simp only [request, TaskQueue.enqueue, foldl_record, hn]
    exact .request ht (.cons rfl (silent_map_reverse .replaced (fun _ => rfl) _))
  · rename_i htime
    cases hs
    simp only [requestBreaksOff, foldl_record]
    exact .requestBreaksOff (by simpa using htime) (silent_map_reverse _ (fun _ => rfl) _)

theorem effect_endJob {id : Nat} {outcome : JobOutcome}
    (hs : e.step? (.endJob id outcome) = some e') : Effect e (.endJob id outcome) e' := by
  obtain ⟨job, hj, rfl⟩ := Option.map_eq_some_iff.mp hs
  have there : job ∈ e.jobs := List.mem_of_find?_eq_some hj
  have hid : job.id = id := by simpa using List.find?_some hj
  subst hid
  unfold endJob
  dsimp only
  split
  · rename_i hw
    exact .jobLost hw
  · rename_i i a hw
    cases outcome with
    | outline o => exact .analysed there rfl hw
    | unparsable cause =>
      simp only [fail, log_eq]
      exact .notAnalysed hw (silent_map_reverse .logged (fun _ => rfl) _)
    | aborted reason =>
      simp only [fail, log_eq]
      exact .notAnalysed hw (silent_map_reverse .logged (fun _ => rfl) _)

/-- **Every step is among the effects.** -/
theorem effect_of_step {a : Action} (hs : e.step? a = some e') : Effect e a e' := by
  cases a with
  | request path priority kind => exact effect_request path priority kind hs
  | payWake => exact effect_payWake hs
  | clear => cases hs; exact .clear
  | start => cases hs; exact effect_start
  | stop => cases hs; exact .aside rfl rfl (sameWork_stop e) fun one => one.of_phases e.phases_stop
  | shutdownBegins =>
    cases hs
    exact .aside rfl rfl (sameWork_of_eq rfl) fun one => one.of_phases rfl
  | shutdownGoesOn k => exact effect_shutdownGoesOn hs
  | loadBegins path => cases hs; exact .loadBegins
  | loadAnswered k fault => exact effect_loadAnswered hs
  | loadReturns k => exact effect_loadReturns hs
  | tick now => cases hs; exact .aside rfl rfl (sameWork_of_eq rfl) fun one => one.of_phases rfl
  | endJob id outcome => exact effect_endJob hs
  | worker i s =>
    obtain ⟨w, hw, hs⟩ := Option.bind_eq_some_iff.mp hs
    exact effect_of_workerStep hw hs

end Inversion

end Engine

end CodeInsight
