import CodeInsight.Proofs.Engine.Concluding

/-!
# What a status tells

* a worker *handles* a task from taking it till it is seen idle again (`Handles`), which is longer
  than it has the task in its hand;
* `Engages` lists what a step can do to the worker that handles a task together with what the loop
  is seen to do, since no step does one without the other (`engages_of_step`);
* so either nobody handles a task and the loop is idle, or one worker handles one task and the loop
  is seen with its file (`Attends`, `Run.attends`);
* **a status in which no task waits and the loop is idle means that nothing is left**
  (`Run.status_tells`).
-/

namespace CodeInsight

/-- Whether a worker in the phase handles a task: it has one in its hand, or has done with one and
    is about to be seen idle. -/
def Phase.isEngaged (p : Phase) : Bool := p.assignment?.isSome || p == .finishing

/-- Worker `i` handles a task: it has taken it, and was not seen idle since. -/
def Handles (past : List Moment) (i : Nat) (t : Task) : Prop :=
  ∃ later m before, past = later ++ m :: before ∧ m.taken? = some (i, t) ∧
    ∀ m' ∈ later, m'.action ≠ .worker i .finish

/-- A task is handled since it was just taken, or as before by a worker that is not seen idle. -/
theorem handles_cons {m : Moment} {past : List Moment} {i : Nat} {t : Task} :
    Handles (m :: past) i t ↔
      m.taken? = some (i, t) ∨ Handles past i t ∧ m.action ≠ .worker i .finish := by
  constructor
  · intro handled
    obtain ⟨later, m₀, before, split, taken, since⟩ := handled
    cases later with
    | nil =>
      cases split
      exact .inl taken
    | cons m' later =>
      cases split
      obtain ⟨own, since⟩ := List.forall_mem_cons.mp since
      exact .inr ⟨⟨later, m₀, before, rfl, taken, since⟩, own⟩
  · intro handled
    rcases handled with taken | ⟨⟨later, m₀, before, rfl, taken, since⟩, own⟩
    · exact ⟨[], m, past, rfl, taken, List.forall_mem_nil _⟩
    · exact ⟨m :: later, m₀, before, rfl, taken, List.forall_mem_cons.mpr ⟨own, since⟩⟩

theorem handles_cons_of_untaken {m : Moment} {past : List Moment} (taken : m.taken? = none)
    {i : Nat} (own : m.action ≠ .worker i .finish) (t : Task) :
    Handles (m :: past) i t ↔ Handles past i t := by
  rw [handles_cons, taken]
  constructor
  · intro handled
    rcases handled with now | ⟨before, -⟩
    · cases now
    · exact before
  · intro before
    exact .inr ⟨before, own⟩

/-! ## 1. Being seen idle -/

theorem engaged_of_busy {p : Phase} (h : p.assignment? ≠ none) : p.isEngaged = true := by
  unfold Phase.isEngaged
  rw [Option.isSome_iff_ne_none.mpr h]
  rfl

theorem engaged_cases {p : Phase} (h : p.isEngaged = true) :
    p.assignment? ≠ none ∨ p = .finishing := by
  unfold Phase.isEngaged at h
  simpa [Option.isSome_iff_ne_none] using h

theorem inSlot_of_engaged {p : Phase} (h : p.isEngaged = true) : p.inSlot = true := by
  rcases engaged_cases h with busy | rfl
  · exact Engine.inSlot_of_busy busy
  · rfl

namespace Engine

section Step

variable {e e' : Engine} {a : Action} {i : Nat} {p₀ p : Phase}

/-- **A worker is seen idle**, since it has done with its task or leaves the slot. -/
inductive SeenIdle (e : Engine) : Action → Engine → Prop where
  | finishes {i : Nat} (h : e.At i .finishing) :
      SeenIdle e (.worker i .finish) (e.seenIdle.move i .resting)
  | leaves {i : Nat} (h : e.At i .leaving) :
      SeenIdle e (.worker i .leave) (e.seenIdle.move i .exited)

/-- Nothing is to be seen: the loop is left as it was, and so is whoever is about to be seen
    idle. -/
structure Unseen (e : Engine) (a : Action) (e' : Engine) : Prop where
  loop : e'.loop = e.loop
  finishing : ∀ j, e'.At j .finishing ↔ e.At j .finishing
  other : ∀ j, a ≠ .worker j .finish

/-- A worker that moves between other phases leaves those who are about to be seen idle. -/
theorem at_finishing_of_move (moved : e'.phases = e.phases.set i p) (h : e.At i p₀)
    (left' : p₀ ≠ .finishing) (other : p ≠ .finishing) (j : Nat) :
    e'.At j .finishing ↔ e.At j .finishing := by
  rw [at_of_move moved h]
  split
  · subst_vars
    constructor
    · intro same
      exact absurd same.symm other
    · intro there
      exact absurd (h.unique there) left'
  · exact Iff.rfl

theorem at_finishing_wakeOne (e : Engine) (j : Nat) :
    e.wakeOne.At j .finishing ↔ e.At j .finishing := by
  rcases wakeOne_cases e with ⟨same, -⟩ | ⟨i, there, moved⟩
  · rw [same]
    exact Iff.rfl
  · rw [moved]
    exact at_finishing_of_move (phases_move e i (.parked true)) there nofun nofun j

/-- A worker that stops waiting leaves those who are about to be seen idle. -/
theorem at_finishing_abandon {notified : Bool} (h : e.At i (.parked notified))
    (other : p ≠ .finishing) (j : Nat) :
    (e.abandon i notified p).At j .finishing ↔ e.At j .finishing := by
  have moved := at_finishing_of_move (phases_move e i p) h nofun other j
  unfold abandon
  cases notified with
  | false => exact moved
  | true => exact (at_finishing_wakeOne _ j).trans moved

theorem unseen_of_phases (loop : e'.loop = e.loop) (same : e'.phases = e.phases)
    (other : ∀ j, a ≠ .worker j .finish) : Unseen e a e' where
  loop := loop
  finishing j := by rw [At, At, same]
  other := other

/-- **A step that does no work** is not to be seen, unless a worker is seen idle. -/
theorem unseen_or_seenIdle (h : Aside e a e') : Unseen e a e' ∨ SeenIdle e a e' := by
  cases h with
  | goes h before after other =>
    have stays := at_finishing_of_move (phases_move _ _ _) h (ne_finishing_of_between before)
      (ne_finishing_of_between after)
    exact .inl ⟨rfl, stays, other⟩
  | abandons h after other =>
    have stays := at_finishing_abandon h (ne_finishing_of_between after)
    exact .inl ⟨loop_abandon .., stays, other⟩
  | finishes h => exact .inr (.finishes h)
  | leaves h => exact .inr (.leaves h)
  | wakes => exact .inl ⟨loop_wakeOne _, at_finishing_wakeOne _, by simp⟩
  | start =>
    unfold Engine.start
    split
    · exact .inl (unseen_of_phases rfl rfl (by simp))
    · exact .inl ⟨rfl, fun j => at_of_phases_append (by simp [phases]) (by simp), by simp⟩
  | stop | stops => exact .inl (unseen_of_phases (loop_stop e) e.phases_stop (by simp))
  | begins | takesUp | returns | tick => exact .inl (unseen_of_phases rfl rfl (by simp))

/-! ## 2. What a step does to the worker that handles a task -/

/-- **What a step can do to the worker that handles a task**, and what the loop is seen to do
    then. -/
inductive Engages (e : Engine) (a : Action) (e' : Engine) : Prop where
  /-- Nothing has changed. -/
  | kept (loop : e'.loop = e.loop) (same : ∀ i p, p.isEngaged = true → (e'.At i p ↔ e.At i p))
      (taken : (Moment.mk e a).taken? = none) (ha : ∀ j, a ≠ .worker j .finish)
  /-- A worker went on with its task. -/
  | goesOn (i : Nat) (p₀ p : Phase) (h : e.At i p₀) (loop : e'.loop = e.loop)
      (busy : p₀.assignment? ≠ none) (engaged : p.isEngaged = true)
      (hand : p.assignment? = p₀.assignment? ∨ p.assignment? = none)
      (moved : e'.phases = e.phases.set i p) (taken : (Moment.mk e a).taken? = none)
      (ha : ∀ j, a ≠ .worker j .finish)
  /-- A worker took a task, and is seen with its file. -/
  | takes (i : Nat) (t : Task) (h : e.At i .taking) (taken : (Moment.mk e a).taken? = some (i, t))
      (loop : e'.loop = ⟨.processing, some t.path⟩)
      (moved : e'.phases = e.phases.set i (.reading ⟨t, e.epoch⟩))
  /-- A worker is seen idle. -/
  | idle (seen : SeenIdle e a e')

/-- Whatever a step does that is none aside, takes no task and loses no worker, is work. -/
theorem engages_of_work (loop : e'.loop = e.loop) (walk : Walk e a e') (busy : a.isAside = false)
    (untaken : ∀ i, a ≠ .worker i .take) (sound : a.isSound = true) : Engages e a e' := by
  have taken : (Moment.mk e a).taken? = none := by
    cases h : (Moment.mk e a).taken? with
    | none => rfl
    | some it => exact absurd (walk.of_taken h).1 (untaken it.1)
  have other (j : Nat) : a ≠ .worker j .finish := by
    intro finish
    rw [finish] at busy
    cases busy
  cases walk with
  | aside aside => rw [aside] at busy; cases busy
  | nothing i _ ha => exact absurd ha (untaken i)
  | take i _ _ _ ha => exact absurd ha (untaken i)
  | still _ _ _ same => exact .kept loop (fun i p _ => by rw [At, At, same]) taken other
  | work i p₀ p h busy _ _ hand _ moved =>
    have engaged : p.isEngaged = true := by
      rcases hand with same | ⟨-, -, last⟩
      · exact engaged_of_busy (same ▸ busy)
      · rw [last sound]
        rfl
    exact .goesOn i p₀ p h loop busy engaged (hand.imp id (·.1)) moved taken other

/-- **No worker comes to handle a task or is done with it unseen.** -/
theorem engages_of_step (hs : e.step? a = some e') (sound : a.isSound = true) :
    Engages e a e' := by
  have effect := effect_of_step hs
  cases effect with
  | aside ha _ same _ =>
    have taken : (Moment.mk e a).taken? = none := (untouched_of_isAside ha).2.2.2
    rcases unseen_or_seenIdle (aside_of_step hs ha) with unseen | seen
    · refine .kept unseen.loop (fun i p engaged => ?_) taken unseen.other
      rcases engaged_cases engaged with busy | rfl
      · exact same.busy i p busy
      · exact unseen.finishing i
    · exact .idle seen
  | @takeNothing i h empty =>
    have taken : (Moment.mk e (.worker i .take)).taken? = none := by simp [Moment.taken?, empty]
    refine .kept rfl (fun j p engaged => ?_) taken (by simp)
    rcases engaged_cases engaged with busy | rfl
    · exact (sameWork_move h rfl rfl).busy j p busy
    · exact at_finishing_of_move (phases_move e i .parking) h (by simp) (by simp) j
  | @take i t ts h head =>
    exact .takes i t h (by simp [Moment.taken?, head]) rfl (phases_move _ _ _)
  | breakdown _ _ unsound => rw [unsound] at sound; cases sound
  | _ => exact engages_of_work rfl (effect_of_step hs).walk rfl (by simp) sound

end Step

/-! ## 3. One task is handled at most -/

/-- **Nobody handles a task and the loop is seen idle, or one worker handles one task and the loop
    is seen with its file.** -/
inductive Attends (past : List Moment) (e : Engine) : Prop where
  | idle (loop : e.loop = {}) (free : ∀ i p, e.At i p → p.isEngaged = false)
      (nobody : ∀ i t, ¬ Handles past i t)
  | busy (i : Nat) (t : Task) (p : Phase) (loop : e.loop = ⟨.processing, some t.path⟩)
      (h : e.At i p) (engaged : p.isEngaged = true)
      (own : ∀ b, p.assignment? = some b → b.task = t)
      (handles : ∀ j s, Handles past j s ↔ j = i ∧ s = t)

section Attends

variable {past : List Moment} {e e' : Engine} {a : Action}

/-- Whoever is in the slot is the one that handles a task, if there is one. -/
theorem OneInSlot.engaged_unique (one : e.OneInSlot) {i j : Nat} {p q : Phase} (hp : e.At i p)
    (slot : p.inSlot = true) (hq : e.At j q) (engaged : q.isEngaged = true) : j = i ∧ q = p := by
  obtain rfl := one j i q p hq hp (inSlot_of_engaged engaged) slot
  exact ⟨rfl, hq.unique hp⟩

/-- Once the worker in the slot has moved to where it handles nothing, nobody handles anything. -/
theorem OneInSlot.free_of_move (one : e.OneInSlot) {i : Nat} {p₀ p : Phase} (h : e.At i p₀)
    (slot : p₀.inSlot = true) (moved : e'.phases = e.phases.set i p) (free : p.isEngaged = false) :
    ∀ j q, e'.At j q → q.isEngaged = false := by
  intro j q hq
  rw [at_of_move moved h] at hq
  split at hq
  · rw [hq, free]
  · rename_i other
    cases engaged : q.isEngaged with
    | false => rfl
    | true => exact absurd (one.engaged_unique h slot hq engaged).1 other

theorem Attends.step (h : Attends past e) (one : e.OneInSlot) (step : Engages e a e') :
    Attends (⟨e, a⟩ :: past) e' := by
  cases step with
  | kept loop same taken other =>
    have handles (j : Nat) (s : Task) : Handles (⟨e, a⟩ :: past) j s ↔ Handles past j s :=
      handles_cons_of_untaken taken (other j) s
    cases h with
    | idle before free nobody =>
      refine .idle (loop.trans before) (fun i p hp => ?_) fun i t => ?_
      · cases engaged : p.isEngaged with
        | false => rfl
        | true => exact engaged.symm.trans (free i p ((same i p engaged).mp hp))
      · rw [handles]
        exact nobody i t
    | busy i t p before hp engaged own all =>
      exact .busy i t p (loop.trans before) ((same i p engaged).mpr hp) engaged own
        fun j s => (handles j s).trans (all j s)
  | goesOn i p₀ p hp₀ loop working engaged hand moved taken other =>
    have engaged₀ := engaged_of_busy working
    cases h with
    | idle before free nobody => exact absurd (engaged₀.symm.trans (free i p₀ hp₀)) nofun
    | busy j t q before hq engaged' own all =>
      obtain ⟨rfl, rfl⟩ := one.engaged_unique hp₀ (inSlot_of_engaged engaged₀) hq engaged'
      refine .busy j t p (loop.trans before) ?_ engaged (fun b hb => ?_) fun k s => ?_
      · rw [at_of_move moved hp₀, if_pos rfl]
      · rcases hand with same | gone
        · exact own b (same.symm.trans hb)
        · rw [gone] at hb
          cases hb
      · rw [handles_cons_of_untaken taken (other k), all]
  | takes i t hp₀ taken loop moved =>
    cases h with
    | idle before free nobody =>
      refine .busy i t (.reading ⟨t, e.epoch⟩) loop ?_ rfl (fun b hb => ?_) fun j s => ?_
      · rw [at_of_move moved hp₀, if_pos rfl]
      · cases hb
        rfl
      · rw [handles_cons, taken]
        constructor
        · intro handled
          rcases handled with now | ⟨still, -⟩
          · cases now
            exact ⟨rfl, rfl⟩
          · exact absurd still (nobody j s)
        · intro own
          obtain ⟨rfl, rfl⟩ := own
          exact .inl rfl
    | busy j s q before hq engaged own all =>
      obtain ⟨rfl, rfl⟩ := one.engaged_unique hp₀ rfl hq engaged
      cases engaged
  | idle seen =>
    cases seen with
    | @finishes i hp₀ =>
      cases h with
      | idle before free nobody => cases free i _ hp₀
      | busy j t q before hq engaged own all =>
        obtain ⟨rfl, rfl⟩ := one.engaged_unique hp₀ rfl hq engaged
        refine .idle rfl (one.free_of_move hp₀ rfl (phases_move _ _ _) rfl) fun k s handled => ?_
        rcases handles_cons.mp handled with taken | ⟨still, other⟩
        · cases taken
        · obtain ⟨rfl, -⟩ := (all k s).mp still
          exact other rfl
    | @leaves i hp₀ =>
      cases h with
      | idle before free nobody =>
        refine .idle rfl (one.free_of_move hp₀ rfl (phases_move _ _ _) rfl) fun k s handled => ?_
        have other : Action.worker i .leave ≠ .worker k .finish := nofun
        exact nobody k s ((handles_cons_of_untaken rfl other s).mp handled)
      | busy j t q before hq engaged own all =>
        obtain ⟨rfl, rfl⟩ := one.engaged_unique hp₀ rfl hq engaged
        cases engaged

end Attends

/-! ## 4. Statuses -/

/-- **Nothing is left of what was asked for.** -/
structure NothingLeft (past : List Moment) (e : Engine) : Prop where
  waiting : e.queue.tasks = []
  handled : ∀ i t, ¬ e.Holds i t ∧ ¬ Handles past i t
  /-- Every task had to give way, was dropped, or was concluded. -/
  gone : ∀ t ∈ askedIn past, Situation.replaced.IsOf past e t ∨ Situation.dropped.IsOf past e t ∨
    Concluded past t

/-- **What the status of an engine tells** after a run. -/
structure StatusTells (past : List Moment) (e : Engine) : Prop where
  /-- It is processing exactly if it shows a file. -/
  processing : e.status.state = .processing ↔ e.status.currentFile ≠ none
  /-- The file it shows is that of the one task that a worker handles. -/
  current : ∀ path, e.status.currentFile = some path →
    ∃ i t, t.path = path ∧ ∀ j s, Handles past j s ↔ j = i ∧ s = t
  /-- Whoever has a task in its hand handles it. -/
  held : ∀ i t, e.Holds i t → Handles past i t
  /-- If no task waits and it is idle, then nothing is left. -/
  quiet : e.status.queueLength = 0 → e.status.state = .idle → NothingLeft past e

section Run

variable {settings : Settings} {store : InsightStore} {isAdvised : Bool} {bus : EventBus}
variable {past : List Moment} {e : Engine}

theorem Run.attends (h : Run (built settings store isAdvised bus) past e)
    (sound : ∀ m ∈ past, m.action.isSound = true) : Attends past e := by
  induction h with
  | start =>
    refine .idle rfl (fun i p hp => ?_) fun i t handled => ?_
    · cases hp
    · obtain ⟨later, m, before, split, -⟩ := handled
      simp at split
  | step h hs ih =>
    obtain ⟨last, before⟩ := List.forall_mem_cons.mp sound
    exact (ih before).step h.oneInSlot (engages_of_step hs last)

/-- Whoever has a task in its hand handles it. -/
theorem Attends.handles_of_holds (h : Attends past e) (one : e.OneInSlot) {i : Nat} {t : Task}
    (held : e.Holds i t) : Handles past i t := by
  obtain ⟨b, hb, rfl⟩ := Option.map_eq_some_iff.mp held
  obtain ⟨p, hp, hpb⟩ := at_of_hand? hb
  have engaged := engaged_of_busy (p := p) (by simp [hpb])
  cases h with
  | idle _ free _ => exact absurd (engaged.symm.trans (free i p hp)) nofun
  | busy j s q _ hq engaged' own all =>
    obtain ⟨rfl, rfl⟩ := one.engaged_unique hp (inSlot_of_engaged engaged) hq engaged'
    exact (all j b.task).mpr ⟨rfl, own b hpb⟩

/-- Where no task waits and nobody handles one, nothing is left. -/
theorem Run.nothingLeft (h : Run (built settings store isAdvised bus) past e)
    (sound : ∀ m ∈ past, m.action.isSound = true)
    (waiting : e.queue.tasks = []) (nobody : ∀ i t, ¬ Handles past i t) : NothingLeft past e := by
  have empty (i : Nat) (t : Task) : ¬ e.Holds i t := fun held =>
    nobody i t ((h.attends sound).handles_of_holds h.oneInSlot held)
  refine ⟨waiting, fun i t => ⟨empty i t, nobody i t⟩, fun t asked => ?_⟩
  obtain ⟨situation, is⟩ := h.exists_situation asked
  cases situation with
  | waiting =>
    have there : t ∈ e.queue.tasks := is
    rw [waiting] at there
    cases there
  | inHand i => exact absurd is (empty i t)
  | replaced => exact .inl is
  | dropped => exact .inr (.inl is)
  | finished => exact .inr (.inr (h.concluded sound is))

/-- **What a status tells**, whatever was asked for, cleared, loaded, started, stopped and shut down
    in whatever order, as long as no collaborator breaks down. -/
theorem Run.status_tells (h : Run (built settings store isAdvised bus) past e)
    (sound : ∀ m ∈ past, m.action.isSound = true) : StatusTells past e where
  processing := by
    show e.loop.state = .processing ↔ e.loop.currentFile ≠ none
    cases h.attends sound with
    | idle loop =>
      rw [loop]
      exact ⟨nofun, fun shown => absurd rfl shown⟩
    | busy _ _ _ loop =>
      rw [loop]
      exact ⟨fun _ => nofun, fun _ => rfl⟩
  current := by
    intro path shown
    have shown : e.loop.currentFile = some path := shown
    cases h.attends sound with
    | idle loop =>
      rw [loop] at shown
      cases shown
    | busy i t _ loop _ _ _ handles =>
      rw [loop] at shown
      exact ⟨i, t, Option.some.inj shown, handles⟩
  held _ _ held := (h.attends sound).handles_of_holds h.oneInSlot held
  quiet := by
    intro none' idle
    have idle : e.loop.state = .idle := idle
    cases h.attends sound with
    | idle _ _ nobody => exact h.nothingLeft sound (List.length_eq_zero_iff.mp none') nobody
    | busy _ _ _ loop =>
      rw [loop] at idle
      cases idle

end Run

/-- A file is analysed, somebody being told when its analysis is complete; another one is asked for
    and dropped; and the worker is seen idle. -/
def analysedAndDropped : List Action :=
  [.request "a.ts" .medium .full, .start, .worker 0 .enterSlot, .worker 0 .look, .worker 0 .take,
   .worker 0 (.endReading (.content "")), .endJob 0 (.outline ⟨"a.ts", none, [], []⟩),
   .worker 0 .cache, .worker 0 (.advise none), .worker 0 .close, .request "b.ts" .high .full,
   .clear, .worker 0 (.save .tried), .worker 0 .finish]

theorem status_tells_quiet :
    ∃ past e, Run (built default (.memory .empty) false
        (({} : EventBus).on .completed fun _ _ => .done).2) past e ∧
      past.map (·.action) = analysedAndDropped.reverse ∧
      (∀ m ∈ past, m.action.isSound = true) ∧ (askedIn past).length = 2 ∧
      e.status.queueLength = 0 ∧ e.status.state = .idle ∧ StatusTells past e := by
  obtain ⟨⟨past, e⟩, ht, facts⟩ := Option.map_eq_some_iff.mp (show
    (trace? analysedAndDropped ([], built default (.memory .empty) false
      (({} : EventBus).on .completed fun _ _ => .done).2)).map (fun r =>
        ((askedIn r.1).length, r.2.status.queueLength, r.2.status.state)) =
      some (2, 0, .idle) by decide)
  simp only [Prod.mk.injEq] at facts
  obtain ⟨two, none', idle⟩ := facts
  have run := Run.start.of_trace? ht
  have sound := sound_of_trace? ht (by decide)
  exact ⟨past, e, run, by rw [actions_of_trace? ht]; rfl, sound, two, none', idle,
    run.status_tells sound⟩

end Engine

end CodeInsight
