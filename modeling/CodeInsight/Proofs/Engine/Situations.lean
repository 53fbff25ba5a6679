import CodeInsight.Proofs.Engine.Keeping
import Mathlib.Logic.ExistsUnique

/-!
# The situations of tasks

* a task that was asked for waits, is in a hand, was replaced, was dropped or is finished
  (`Situation`);
* **it is in exactly one of these situations** at every moment of every run, and what is told of
  it fits (`Run.accounted`).
-/

namespace CodeInsight

/-- The situations of a task. -/
inductive Situation where
  | waiting
  | inHand (worker : Nat)
  | replaced
  | dropped
  | finished
  deriving DecidableEq

/-- A task is in a situation, after a run. -/
def Situation.IsOf (past : List Moment) (e : Engine) (t : Task) : Situation → Prop
  | waiting => t ∈ e.queue.tasks
  | inHand i => e.Holds i t
  | replaced => ∃ m ∈ past, ∃ priority kind, m.action = .request t.path priority kind ∧
      m.engine.queue.find? t.path = some t
  | dropped => ∃ m ∈ past, m.action = .clear ∧ t ∈ m.engine.queue.tasks
  | finished => t ∈ endedIn past

/-- One event was told of a task with which its analysis ends, and it is about the file. -/
def EndsOnce (past : List Moment) (t : Task) : Prop :=
  ∃ event, (toldOf past t).filter Event.isTerminal = [event] ∧ event.path = t.path

/-- A block has one event with which an analysis ends. -/
theorem Block.endsOnce {thresholds : Thresholds} {path : String} {work : List Moment}
    {events : List Event} (h : Block thresholds path work events) :
    ∃ event, events.filter Event.isTerminal = [event] ∧ event.path = path := by
  cases h with
  | failed message time => exact ⟨_, rfl, rfl⟩
  | @analysed content outline r found time analysis all order =>
    refine ⟨.completed path r.insights time, ?_, rfl⟩
    have none' : (detections path found).filter Event.isTerminal = [] :=
      List.filter_eq_nil_iff.mpr fun event there => by
        obtain ⟨f, -, rfl⟩ := List.mem_map.mp there
        exact Bool.false_ne_true
    rw [List.filter_append, none']
    rfl

namespace Engine

/-! ## 1. Situations are counted -/

theorem mem_replacedIn {past : List Moment} {t : Task} :
    t ∈ replacedIn past ↔ ∃ m ∈ past, ∃ priority kind,
      m.action = .request t.path priority kind ∧ m.engine.queue.find? t.path = some t := by
  unfold replacedIn
  rw [List.mem_filterMap]
  constructor
  · rintro ⟨m, hm, replaced⟩
    unfold Moment.replaced? at replaced
    split at replaced
    · rename_i path priority kind ha
      obtain ⟨-, rfl⟩ := TaskQueue.of_find? replaced
      exact ⟨m, hm, priority, kind, ha, replaced⟩
    · cases replaced
  · rintro ⟨m, hm, priority, kind, ha, found⟩
    exact ⟨m, hm, by rw [Moment.replaced?, ha]; exact found⟩

theorem mem_droppedIn {past : List Moment} {t : Task} :
    t ∈ droppedIn past ↔ ∃ m ∈ past, m.action = .clear ∧ t ∈ m.engine.queue.tasks := by
  unfold droppedIn
  rw [List.mem_flatMap]
  constructor
  · rintro ⟨m, hm, dropped⟩
    unfold Moment.dropped at dropped
    split at dropped
    · rename_i ha
      exact ⟨m, hm, ha, dropped⟩
    · cases dropped
  · rintro ⟨m, hm, ha, waits⟩
    exact ⟨m, hm, by rw [Moment.dropped, ha]; exact waits⟩

/-- How often a task is entered in the account of a situation. -/
def tally (past : List Moment) (e : Engine) (t : Task) : Situation → Nat
  | .waiting => e.queue.tasks.count t
  | .inHand _ => e.inHand.count t
  | .replaced => (replacedIn past).count t
  | .dropped => (droppedIn past).count t
  | .finished => (endedIn past).count t

theorem tally_pos {past : List Moment} {e : Engine} {t : Task} {s : Situation}
    (h : s.IsOf past e t) : 0 < tally past e t s := by
  cases s with
  | waiting => exact List.count_pos_iff.mpr h
  | inHand i => exact List.count_pos_iff.mpr (mem_inHand.mpr ⟨i, h⟩)
  | replaced => exact List.count_pos_iff.mpr (mem_replacedIn.mpr h)
  | dropped => exact List.count_pos_iff.mpr (mem_droppedIn.mpr h)
  | finished => exact List.count_pos_iff.mpr h

section Run

variable {settings : Settings} {store : InsightStore} {isAdvised : Bool} {bus : EventBus}
variable {past : List Moment} {e : Engine} {t : Task}

/-- A task that was asked for is in some situation. -/
theorem Run.exists_situation (h : Run (built settings store isAdvised bus) past e)
    (asked : t ∈ askedIn past) : ∃ s : Situation, s.IsOf past e t := by
  have account := h.account asked
  by_cases waits : t ∈ e.queue.tasks
  · exact ⟨.waiting, waits⟩
  by_cases replaced : t ∈ replacedIn past
  · exact ⟨.replaced, mem_replacedIn.mp replaced⟩
  by_cases dropped : t ∈ droppedIn past
  · exact ⟨.dropped, mem_droppedIn.mp dropped⟩
  by_cases held : t ∈ e.inHand
  · obtain ⟨i, hi⟩ := mem_inHand.mp held
    exact ⟨.inHand i, hi⟩
  · refine ⟨.finished, List.count_pos_iff.mp ?_⟩
    rw [List.count_eq_zero.mpr waits, List.count_eq_zero.mpr replaced,
      List.count_eq_zero.mpr dropped, List.count_eq_zero.mpr held] at account
    omega

/-- It is in no other. -/
theorem Run.situation_unique (h : Run (built settings store isAdvised bus) past e)
    (asked : t ∈ askedIn past) {s s' : Situation} (hs : s.IsOf past e t)
    (hs' : s'.IsOf past e t) : s = s' := by
  have account := h.account asked
  have entered := tally_pos hs
  have entered' := tally_pos hs'
  have one := h.oneInSlot
  cases s with
  | inHand i =>
    cases s' with
    | inHand j =>
      obtain ⟨b, hb, -⟩ := Option.map_eq_some_iff.mp hs
      obtain ⟨c, hc, -⟩ := Option.map_eq_some_iff.mp hs'
      rw [one.hand_unique hb hc]
    | _ => simp only [tally] at entered entered'; omega
  | _ => cases s' <;> simp only [tally] at entered entered' <;> first | rfl | omega

/-! ## 2. What is told of a task -/

/-- A task that is done with ended once. -/
theorem Run.endsOnce (h : Run (built settings store isAdvised bus) past e)
    (sound : ∀ m ∈ past, m.action.isSound = true) (ended : t ∈ endedIn past) : EndsOnce past t :=
  (h.block_of_ended sound ended).endsOnce

/-- Nothing was told of a task that was not taken. -/
theorem Run.toldOf_eq_nil (h : Run (built settings store isAdvised bus) past e)
    (ht : t ∉ takenIn past) : toldOf past t = [] := by
  rw [toldOf, h.workOn_eq_nil ht]
  rfl

/-- A task that waits, was replaced or was dropped was not taken. -/
theorem Run.not_taken (h : Run (built settings store isAdvised bus) past e) {s : Situation}
    (hs : s.IsOf past e t) (free : s = .waiting ∨ s = .replaced ∨ s = .dropped) :
    t ∉ takenIn past := by
  intro taken
  have entered := tally_pos hs
  have once := List.nodup_iff_count.mp h.askedIn_nodup t
  have account := h.asked_account t
  have := List.count_pos_iff.mpr taken
  rcases free with rfl | rfl | rfl <;> simp only [tally] at entered <;> omega

/-! ## 3. What becomes of a task -/

/-- Starting, stopping and shutting down leave every task in its situation. -/
theorem situation_of_isAside {e' : Engine} {a : Action} (hs : e.step? a = some e')
    (ha : a.isAside = true) (s : Situation) : s.IsOf (⟨e, a⟩ :: past) e' t ↔ s.IsOf past e t := by
  have same := sameWork_of_isAside hs ha
  obtain ⟨-, replaced, dropped, -⟩ := untouched_of_isAside (e := e) ha
  cases s with
  | waiting =>
    show t ∈ e'.queue.tasks ↔ t ∈ e.queue.tasks
    rw [same.queue]
  | inHand i =>
    show e'.Holds i t ↔ e.Holds i t
    rw [Holds, Holds, same.hand?]
  | replaced =>
    show _ ↔ _
    rw [Situation.IsOf, Situation.IsOf, ← mem_replacedIn, ← mem_replacedIn, replacedIn,
      List.filterMap_cons_none replaced]
    rfl
  | dropped =>
    rw [Situation.IsOf, Situation.IsOf, ← mem_droppedIn, ← mem_droppedIn, droppedIn,
      List.flatMap_cons, dropped]
    rfl
  | finished =>
    rw [Situation.IsOf, Situation.IsOf, endedIn,
      List.filterMap_cons_none (ended?_of_hand hs same.hand?)]
    rfl

/-- A clearing tells how many tasks it drops, and counts each of them once. -/
theorem Run.clear_counts (h : Run (built settings store isAdvised bus) past e) {m : Moment}
    (hm : m ∈ past) (ha : m.action = .clear) :
    m.engine.clear.1 = m.dropped.length ∧ m.dropped.Nodup := by
  obtain ⟨later, before, rfl⟩ := List.append_of_mem hm
  obtain ⟨e₁, run, -, -⟩ := h.cut
  have dropped : m.dropped = m.engine.queue.tasks := by rw [Moment.dropped, ha]
  rw [dropped]
  refine ⟨rfl, List.nodup_iff_count.mpr fun t => ?_⟩
  have once := List.nodup_iff_count.mp run.askedIn_nodup t
  have account := run.asked_account t
  omega

/-- **What becomes of a task** that was asked for. -/
structure Accounted (past : List Moment) (e : Engine) (t : Task) : Prop where
  /-- It was asked for once. -/
  once : (askedIn past).count t = 1
  /-- It is in one situation and no other. -/
  situation : ∃! s : Situation, s.IsOf past e t
  /-- The worker that has it took it, and no other did. -/
  taker : ∀ i, e.Holds i t → ∀ j, (∃ m ∈ past, m.taken? = some (j, t)) ↔ j = i
  /-- Whoever clears the cache is told of all tasks that are dropped with it, each counted once. -/
  counted : ∀ m ∈ past, m.action = .clear →
    m.engine.clear.1 = m.dropped.length ∧ m.dropped.Nodup
  /-- Nothing is told of it while it waits, nor if it was replaced or dropped. -/
  untold : ∀ s : Situation, s.IsOf past e t → s = .waiting ∨ s = .replaced ∨ s = .dropped →
    toldOf past t = []
  /-- If it is finished, it ended once. -/
  ended : Situation.finished.IsOf past e t → EndsOnce past t
  /-- Starting, stopping and shutting down leave it where it is. -/
  unmoved : ∀ a e', a = .start ∨ a = .stop ∨ a = .shutdownBegins ∨ (∃ k, a = .shutdownGoesOn k) →
    e.step? a = some e' → ∀ s : Situation, s.IsOf (⟨e, a⟩ :: past) e' t ↔ s.IsOf past e t
  /-- If it is in a hand, then whatever is done from then on, it either stays in that hand, where
      it can be worked on and was so less than nine times, or is finished and ended once. Only
      handlers that never come to an end, called for what is told of it, can hold it up. -/
  comesToEnd : ∀ i, e.Holds i t → ∀ later e', Run e later e' →
    (∀ m ∈ later, m.action.isSound = true) →
      (e'.Holds i t ∧ (workOn (later ++ past) t).length < 9 ∧
        ((∃ a e'', a.isSound = true ∧ e'.step? a = some e'' ∧
          (Moment.mk e' a).hand?.map (·.task) = some t) ∨ e'.IsHeldUp i)) ∨
      (Situation.finished.IsOf (later ++ past) e' t ∧ EndsOnce (later ++ past) t)

/-- A task in a hand comes to an end. -/
theorem Run.comesToEnd (h : Run (built settings store isAdvised bus) past e)
    (sound : ∀ m ∈ past, m.action.isSound = true) {i : Nat} (held : e.Holds i t)
    {later : List Moment} {e' : Engine} (h' : Run e later e')
    (sound' : ∀ m ∈ later, m.action.isSound = true) :
    (e'.Holds i t ∧ (workOn (later ++ past) t).length < 9 ∧
      ((∃ a e'', a.isSound = true ∧ e'.step? a = some e'' ∧
        (Moment.mk e' a).hand?.map (·.task) = some t) ∨ e'.IsHeldUp i)) ∨
    (Situation.finished.IsOf (later ++ past) e' t ∧ EndsOnce (later ++ past) t) := by
  have run := h.append h'
  rcases h.kept held h' with still | done
  · left
    obtain ⟨b, hb, rfl⟩ := Option.map_eq_some_iff.mp still
    obtain ⟨p, hp, hpb⟩ := at_of_hand? hb
    have pace := run.pace hp hpb
    have left' := left_pos (p := p) (by simp [hpb])
    refine ⟨still, by omega, (run.can_go_on hb).imp ?_ id⟩
    rintro ⟨a, e'', ha, hs, worked⟩
    exact ⟨a, e'', ha, hs, by rw [worked]; rfl⟩
  · right
    refine ⟨done, run.endsOnce (fun m hm => ?_) done⟩
    rcases List.mem_append.mp hm with hm | hm
    · exact sound' m hm
    · exact sound m hm

/-- **No task is lost or finished twice**, whatever was asked for, cleared, started and stopped in
    whatever order, as long as no collaborator breaks down. -/
theorem Run.accounted (h : Run (built settings store isAdvised bus) past e)
    (sound : ∀ m ∈ past, m.action.isSound = true) (asked : t ∈ askedIn past) :
    Accounted past e t where
  once := by rw [h.askedIn_nodup.count, if_pos asked]
  situation := by
    obtain ⟨s, hs⟩ := h.exists_situation asked
    exact ⟨s, hs, fun s' hs' => h.situation_unique asked hs' hs⟩
  taker := by
    intro i held j
    obtain ⟨b, hb, rfl⟩ := Option.map_eq_some_iff.mp held
    exact h.taker hb j
  counted _ hm ha := h.clear_counts hm ha
  untold _ hs free := h.toldOf_eq_nil (h.not_taken hs free)
  ended done := h.endsOnce sound done
  unmoved := by
    rintro a e' (rfl | rfl | rfl | ⟨k, rfl⟩) hs s <;> exact situation_of_isAside hs rfl s
  comesToEnd _ held _ _ h' sound' := h.comesToEnd sound held h' sound'

end Run

theorem accounted_twoTasks :
    let t := Task.of "a.ts" .medium .full .epoch
    ∃ past e, Run (built default (.memory .empty) false {}) past e ∧
      past.map (·.action) = twoTasks.reverse ∧ (∀ m ∈ past, m.action.isSound = true) ∧
      t ∈ askedIn past ∧ Situation.finished.IsOf past e t ∧
      toldOf past t = [.completed "a.ts" [] .epoch] ∧ Accounted past e t := by
  intro t
  obtain ⟨⟨past, e⟩, ht, facts⟩ := Option.map_eq_some_iff.mp (show
    (trace? twoTasks ([], built default (.memory .empty) false {})).map (fun r =>
      (decide (t ∈ askedIn r.1), decide (t ∈ endedIn r.1), toldOf r.1 t)) =
        some (true, true, [.completed "a.ts" [] .epoch]) by decide)
  simp only [Prod.mk.injEq, decide_eq_true_eq] at facts
  obtain ⟨asked, ended, told⟩ := facts
  have run := Run.start.of_trace? ht
  have sound := sound_of_trace? ht (by decide)
  exact ⟨past, e, run, by rw [actions_of_trace? ht]; rfl, sound, asked, ended, told,
    run.accounted sound asked⟩

end Engine

end CodeInsight
