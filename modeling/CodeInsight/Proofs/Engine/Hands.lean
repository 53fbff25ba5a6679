import CodeInsight.Proofs.Engine.Effect

/-!
# Hands

* `Walk` is what a step does to the phases of workers and nothing else: workers without a task go
  about, one takes a task, or one with a task comes nearer to its end (`Effect.walk`);
* **one worker is in the slot at most** (`Run.oneInSlot`), so one task at most is in a hand
  (`OneInSlot.hand_unique`);
* a worker comes to a task only by taking it out of the queue (`Effect.hand_cases`), and then takes
  at most nine steps with it (`Phase.left`).
-/

namespace CodeInsight

/-- How many steps a worker takes at most till it has done with its task; there are three intents
    to tell of at most. -/
def Phase.left : Phase → Nat
  | reading _ => 9
  | analysing _ _ => 8
  | announcing _ _ signals => 4 + signals.length
  | advising _ _ _ => 3
  | closing _ _ _ => 2
  | saving _ _ => 1
  | refusing _ _ => 2
  | reporting _ _ => 1
  | _ => 0

/-- The intents of a text are told of in one order, each once at most. -/
theorem Intent.detect_sublist (content : List Char) (window : Nat) :
    ((Intent.detect content window).map (·.intent)).Sublist Intent.all := by
  unfold detect
  rw [List.map_map]
  have h : ((·.intent) ∘ signal) = (id : Intent → Intent) := rfl
  rw [h, List.map_id]
  exact List.filter_sublist

namespace Engine

/-! ## 1. Phases -/

theorem inSlot_of_busy {p : Phase} (h : p.assignment? ≠ none) : p.inSlot = true := by
  cases p <;> first | rfl | exact absurd rfl h

theorem left_pos {p : Phase} (h : p.assignment? ≠ none) : 0 < p.left := by
  cases p with
  | announcing =>
    simp only [Phase.left]
    omega
  | _ => first | exact absurd rfl h | exact Nat.succ_pos _

theorem hand?_of_phases {e e' : Engine} (h : e'.phases = e.phases) (i : Nat) :
    e'.hand? i = e.hand? i := by
  rw [hand?, hand?, h]

theorem mem_inHand {e : Engine} {t : Task} : t ∈ e.inHand ↔ ∃ i, e.Holds i t := by
  unfold inHand Holds
  rw [List.mem_filterMap]
  constructor
  · rintro ⟨p, hp, ht⟩
    obtain ⟨i, hi⟩ := List.mem_iff_getElem?.mp hp
    exact ⟨i, by rw [hand?_of_at hi]; exact ht⟩
  · rintro ⟨i, hi⟩
    obtain ⟨a, ha, rfl⟩ := Option.map_eq_some_iff.mp hi
    obtain ⟨p, hp, hpa⟩ := at_of_hand? ha
    exact ⟨p, List.mem_of_getElem? hp, by rw [Phase.task?, hpa]; rfl⟩

theorem mem_inHand_of_hand {e : Engine} {i : Nat} {b : Assignment} (h : e.hand? i = some b) :
    b.task ∈ e.inHand := by
  refine mem_inHand.mpr ⟨i, ?_⟩
  rw [Holds, h]
  rfl

/-- A task in a hand is worked on by a worker in some phase. -/
theorem exists_at_of_mem_inHand {e : Engine} {t : Task} (h : t ∈ e.inHand) :
    ∃ i p b, e.At i p ∧ p.assignment? = some b ∧ b.task = t := by
  obtain ⟨i, hi⟩ := mem_inHand.mp h
  obtain ⟨b, hb, ht⟩ := Option.map_eq_some_iff.mp hi
  obtain ⟨p, hp, hpb⟩ := at_of_hand? hb
  exact ⟨i, p, b, hp, hpb, ht⟩

/-! ## 2. Walking -/

/-- **What a step does to the phases.** -/
inductive Walk (e : Engine) (a : Action) (e' : Engine) : Prop where
  /-- Workers without a task may have gone about. -/
  | aside (ha : a.isAside = true) (idle : (Moment.mk e a).hand? = none) (same : SameWork e e')
      (slot : e.OneInSlot → e'.OneInSlot)
  /-- A worker found no task. -/
  | nothing (i : Nat) (h : e.At i .taking) (ha : a = .worker i .take)
      (empty : e.queue.tasks = []) (same : SameWork e e')
      (moved : e'.phases = e.phases.set i .parking)
  /-- No worker moved, and none was told to. -/
  | still (ha : a.isAside = false) (own : ∀ i s, a ≠ .worker i s)
      (idle : (Moment.mk e a).hand? = none) (same : e'.phases = e.phases)
  /-- A worker took a task. -/
  | take (i : Nat) (t : Task) (ts : List Task) (h : e.At i .taking) (ha : a = .worker i .take)
      (head : e.queue.tasks = t :: ts) (moved : e'.phases = e.phases.set i (.reading ⟨t, e.epoch⟩))
  /-- A worker with a task went on with it, or has done with it. -/
  | work (i : Nat) (p₀ p : Phase) (h : e.At i p₀) (busy : p₀.assignment? ≠ none)
      (worked : (Moment.mk e a).hand? = p₀.assignment?) (ha : ∀ j, a ≠ .worker j .take)
      (hand : p.assignment? = p₀.assignment? ∨
        p.assignment? = none ∧ (∃ s, a = .worker i s) ∧ (a.isSound = true → p = .finishing))
      (nearer : p.left < p₀.left) (moved : e'.phases = e.phases.set i p)

/-- A step that moves a worker with a task nearer to its end. -/
theorem walk_move {e e₁ : Engine} {a : Action} {i : Nat} {p₀ p : Phase} (h : e.At i p₀)
    (same : e₁.phases = e.phases) (busy : p₀.assignment? ≠ none)
    (worked : (Moment.mk e a).hand? = p₀.assignment?) (ha : ∀ j, a ≠ .worker j .take)
    (hand : p.assignment? = p₀.assignment? ∨
      p.assignment? = none ∧ (∃ s, a = .worker i s) ∧ (a.isSound = true → p = .finishing))
    (nearer : p.left < p₀.left) : Walk e a (e₁.move i p) :=
  .work i p₀ p h busy worked ha hand nearer (by rw [phases_move, same])

/-- Each effect is a walk. -/
theorem Effect.walk {e e' : Engine} {a : Action} (h : Effect e a e') : Walk e a e' := by
  cases h with
  | aside ha idle same slot => exact .aside ha idle same slot
  | takeNothing h empty =>
    exact .nothing _ h rfl empty (sameWork_move h rfl rfl) (phases_move _ _ _)
  | take h head => exact .take _ _ _ h rfl head (phases_move _ _ _)
  | content h =>
    exact walk_move h rfl nofun (hand?_of_at h) nofun (.inl rfl) (by simp [Phase.left])
  | unreadable h _ =>
    exact walk_move h rfl nofun (hand?_of_at h) nofun (.inl rfl) (by simp [Phase.left])
  | outOfTime h hp _ =>
    rcases hp with rfl | ⟨job, rfl⟩ <;>
      exact walk_move h rfl nofun (hand?_of_at h) nofun (.inl rfl) (by simp [Phase.left])
  | announce h _ =>
    exact walk_move h rfl nofun (hand?_of_at h) nofun (.inl rfl) (by simp [Phase.left])
  | cached h _ =>
    exact walk_move h rfl nofun (hand?_of_at h) nofun (.inl rfl) (by simp [Phase.left])
  | notCached h _ =>
    exact walk_move h rfl nofun (hand?_of_at h) nofun (.inl rfl) (by simp [Phase.left])
  | advise h _ =>
    exact walk_move h rfl nofun (hand?_of_at h) nofun (.inl rfl) (by simp [Phase.left])
  | @close i a r current bus hs h _ =>
    cases current with
    | true => exact walk_move h rfl nofun (hand?_of_at h) nofun (.inl rfl) (by simp [Phase.left])
    | false =>
      exact walk_move h rfl nofun (hand?_of_at h) nofun (.inr ⟨rfl, ⟨_, rfl⟩, fun _ => rfl⟩)
        (by simp [Phase.left])
  | saved h _ =>
    exact walk_move h rfl nofun (hand?_of_at h) nofun (.inr ⟨rfl, ⟨_, rfl⟩, fun _ => rfl⟩)
      (by simp [Phase.left])
  | notSaved h _ _ =>
    exact walk_move h rfl nofun (hand?_of_at h) nofun (.inr ⟨rfl, ⟨_, rfl⟩, fun _ => rfl⟩)
      (by simp [Phase.left])
  | emptied h _ =>
    exact walk_move h rfl nofun (hand?_of_at h) nofun (.inl rfl) (by simp [Phase.left])
  | notEmptied h _ =>
    exact walk_move h rfl nofun (hand?_of_at h) nofun (.inl rfl) (by simp [Phase.left])
  | report h _ =>
    exact walk_move h rfl nofun (hand?_of_at h) nofun (.inr ⟨rfl, ⟨_, rfl⟩, fun _ => rfl⟩)
      (by simp [Phase.left])
  | @breakdown i s p hs h busy unsound _ =>
    refine walk_move h rfl busy (hand?_of_at h) ?_ (.inr ⟨rfl, ⟨_, rfl⟩, fun sound => ?_⟩)
      (left_pos busy)
    · rintro j hj
      cases hj
      cases unsound
    · rw [unsound] at sound
      cases sound
  | @analysed id i a job o there hid waits =>
    have worked : (Moment.mk e (.endJob id (.outline o))).hand? = some a := by
      simp [Moment.hand?, waits]
    refine walk_move (at_of_waiter? waits) rfl nofun worked nofun (.inl rfl) ?_
    have few := (Intent.detect_sublist job.content.toList
      e.settings.thresholds.intentWindowLines).length_le
    rw [List.length_map] at few
    have few : (e.analyse job o).1.signals.length ≤ 3 := few
    simp only [Phase.left]
    omega
  | @notAnalysed id i a outcome fault hs waits _ =>
    have worked : (Moment.mk e (.endJob id outcome)).hand? = some a := by
      simp [Moment.hand?, waits]
    exact walk_move (at_of_waiter? waits) rfl nofun worked nofun (.inl rfl)
      (by simp [Phase.left])
  | jobLost nobody => exact .still rfl nofun (by simp [Moment.hand?, nobody]) rfl
  | request | requestBreaksOff | clear | loadBegins | loadAnswered | loadCached | loadNotCached =>
    exact .still rfl nofun rfl rfl

/-! ## 3. The slot -/

section Slot

variable {e e' : Engine} {a : Action} {past : List Moment}

theorem Walk.oneInSlot (h : Walk e a e') (one : e.OneInSlot) : e'.OneInSlot := by
  cases h with
  | aside _ _ _ slot => exact slot one
  | nothing i h _ _ _ moved => exact one.move moved h (.inl rfl)
  | still _ _ _ same => exact one.of_phases same
  | take i t ts h _ _ moved => exact one.move moved h (.inl rfl)
  | work i p₀ p h busy _ _ _ _ moved => exact one.move moved h (.inl (inSlot_of_busy busy))

/-- **One worker is in the slot at most**, in every run. -/
theorem Run.oneInSlot {settings : Settings} {store : InsightStore} {isAdvised : Bool}
    {bus : EventBus} (h : Run (built settings store isAdvised bus) past e) : e.OneInSlot := by
  induction h with
  | start =>
    intro i j p q hp
    cases hp
  | step _ hs ih => exact (effect_of_step hs).walk.oneInSlot ih

/-- Only one worker has a task in its hand. -/
theorem OneInSlot.hand_unique (one : e.OneInSlot) {i j : Nat} {b c : Assignment}
    (hb : e.hand? i = some b) (hc : e.hand? j = some c) : i = j := by
  obtain ⟨p, hp, hpb⟩ := at_of_hand? hb
  obtain ⟨q, hq, hqc⟩ := at_of_hand? hc
  exact one i j p q hp hq (inSlot_of_busy (by simp [hpb])) (inSlot_of_busy (by simp [hqc]))

/-- While a worker is about to take a task, nobody has one. -/
theorem OneInSlot.hand_of_taking (one : e.OneInSlot) {i : Nat} (h : e.At i .taking) (j : Nat) :
    e.hand? j = none := by
  cases hj : e.hand? j with
  | none => rfl
  | some b =>
    obtain ⟨p, hp, hpb⟩ := at_of_hand? hj
    have hij : j = i := one j i p _ hp h (inSlot_of_busy (by simp [hpb])) rfl
    subst hij
    rw [hp.unique h] at hpb
    cases hpb

end Slot

/-! ## 4. How a task comes into a hand -/

section Hand

variable {e e' : Engine} {a : Action}

theorem SameWork.hand? (same : SameWork e e') (j : Nat) : e'.hand? j = e.hand? j := by
  refine Option.ext fun b => ⟨fun h => ?_, fun h => ?_⟩
  · obtain ⟨p, hp, hpb⟩ := at_of_hand? h
    rw [hand?_of_at ((same.busy j p (by simp [hpb])).mp hp), hpb]
  · obtain ⟨p, hp, hpb⟩ := at_of_hand? h
    rw [hand?_of_at ((same.busy j p (by simp [hpb])).mpr hp), hpb]

/-- A step aside does no work, whoever takes it. -/
theorem sameWork_of_isAside (hs : e.step? a = some e') (ha : a.isAside = true) :
    SameWork e e' := by
  cases effect_of_step hs with
  | aside _ _ same _ => exact same
  | @breakdown i s _ _ _ _ unsound =>
    cases s <;> first | cases unsound | cases ha
  | _ => cases ha

/-- **What is in a hand was there before, or was just taken** out of the queue. -/
theorem Walk.hand_cases (h : Walk e a e') {j : Nat} {b : Assignment}
    (hb : e'.hand? j = some b) :
    e.hand? j = some b ∨
      a = .worker j .take ∧ e.At j .taking ∧ b.epoch = e.epoch ∧
        e.queue.tasks.head? = some b.task := by
  cases h with
  | aside _ _ same _ => exact .inl (by rw [← same.hand?]; exact hb)
  | nothing _ _ _ _ same _ => exact .inl (by rw [← same.hand?]; exact hb)
  | still _ _ _ same => exact .inl (by rw [← hand?_of_phases same]; exact hb)
  | take i t ts h ha head moved =>
    rw [hand?_of_move moved h] at hb
    split at hb
    · rename_i hj
      subst hj
      cases hb
      exact .inr ⟨ha, h, rfl, by rw [head]; rfl⟩
    · exact .inl hb
  | work i p₀ p h _ _ _ hand _ moved =>
    left
    rw [hand?_of_move moved h] at hb
    split at hb
    · rename_i hj
      subst hj
      rcases hand with same | ⟨gone, -⟩
      · rw [hand?_of_at h, ← same]; exact hb
      · rw [gone] at hb; cases hb
    · exact hb

/-- A worker with a task has not moved, has just taken it, or was the one that worked. -/
theorem Walk.at_cases (h : Walk e a e') {j : Nat} {q : Phase} {c : Assignment} (hq : e'.At j q)
    (hc : q.assignment? = some c) :
    e.At j q ∨ (Moment.mk e a).taken? = some (j, c.task) ∧ q = .reading c ∨
      (Moment.mk e a).hand? ≠ none := by
  cases h with
  | aside _ _ same _ => exact .inl ((same.busy j q (by simp [hc])).mp hq)
  | nothing _ _ _ _ same _ => exact .inl ((same.busy j q (by simp [hc])).mp hq)
  | still _ _ _ same =>
    left
    rw [At, same] at hq
    exact hq
  | take i t ts h ha head moved =>
    rw [at_of_move moved h] at hq
    split at hq
    · right; left
      subst_vars
      cases hc
      exact ⟨by simp [Moment.taken?, head], rfl⟩
    · exact .inl hq
  | work _ _ _ _ busy worked => exact .inr (.inr (by rw [worked]; exact busy))

/-- What is worked on is in a hand. -/
theorem hand_of_worked {b : Assignment} (h : (Moment.mk e a).hand? = some b) :
    ∃ i, e.hand? i = some b := by
  cases a with
  | worker i s => exact ⟨i, h⟩
  | endJob id outcome =>
    obtain ⟨⟨i, c⟩, waits, hc⟩ := Option.map_eq_some_iff.mp h
    cases hc
    exact ⟨i, hand?_of_at (at_of_waiter? waits)⟩
  | _ => cases h

/-- Work on a task moves the worker that has it nearer to its end. -/
theorem Walk.of_worked (h : Walk e a e') {b : Assignment}
    (worked : (Moment.mk e a).hand? = some b) :
    ∃ i p₀ p, e.At i p₀ ∧ p₀.assignment? = some b ∧ e'.phases = e.phases.set i p ∧
      p.left < p₀.left ∧ (p.assignment? = some b ∨
        p.assignment? = none ∧ (a.isSound = true → p = .finishing)) := by
  cases h with
  | aside _ idle => rw [idle] at worked; cases worked
  | still _ _ idle => rw [idle] at worked; cases worked
  | nothing i h ha =>
    subst ha
    cases worked.symm.trans (hand?_of_at h)
  | take i t ts h ha =>
    subst ha
    cases worked.symm.trans (hand?_of_at h)
  | work i p₀ p h busy own ha hand nearer moved =>
    have hb := own.symm.trans worked
    exact ⟨i, p₀, p, h, hb, moved, nearer, hand.imp (·.trans hb) fun gone => ⟨gone.1, gone.2.2⟩⟩

/-- A task that is taken is the next one, and is then read for. -/
theorem Walk.of_taken (h : Walk e a e') {i : Nat} {t : Task}
    (taken : (Moment.mk e a).taken? = some (i, t)) :
    a = .worker i .take ∧ e.At i .taking ∧ e.queue.tasks.head? = some t ∧
      e'.phases = e.phases.set i (.reading ⟨t, e.epoch⟩) := by
  have ha : a = .worker i .take ∧ e.queue.tasks.head? = some t := by
    unfold Moment.taken? at taken
    split at taken
    · rename_i j ha
      obtain ⟨s, head, hj⟩ := Option.map_eq_some_iff.mp taken
      cases hj
      exact ⟨ha, head⟩
    · cases taken
  obtain ⟨rfl, head⟩ := ha
  cases h with
  | aside ha => cases ha
  | nothing j _ _ empty =>
    rw [empty] at head
    cases head
  | still _ own => exact absurd rfl (own i .take)
  | take j s ts h ha full moved =>
    cases ha
    rw [full] at head
    cases head
    exact ⟨rfl, h, by rw [full]; rfl, moved⟩
  | work _ _ _ _ _ _ ha => exact absurd rfl (ha i)

/-- Whoever takes a task has none, and nor has anybody else. -/
theorem Walk.hand_of_taken (h : Walk e a e') (one : e.OneInSlot) {i : Nat} {t : Task}
    (taken : (Moment.mk e a).taken? = some (i, t)) :
    (Moment.mk e a).hand? = none ∧ ∀ j, e.hand? j = none := by
  obtain ⟨rfl, taking, -, -⟩ := h.of_taken taken
  exact ⟨one.hand_of_taking taking i, one.hand_of_taking taking⟩

end Hand

end Engine

end CodeInsight
