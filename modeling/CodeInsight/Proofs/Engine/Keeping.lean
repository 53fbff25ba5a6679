import CodeInsight.Proofs.Bus.Delivery
import CodeInsight.Proofs.Engine.Stream

/-!
# Workers and their tasks

* a worker with a task can always go on with it, if only the handlers called for what it tells of
  come to an end (`Run.can_go_on`);
* the worker that has a task is the one that took it (`Run.taker`), and keeps it till it has done
  with it (`Run.kept`).
-/

namespace CodeInsight

namespace Engine

section Run

variable {settings : Settings} {store : InsightStore} {isAdvised : Bool} {bus : EventBus}
variable {past later : List Moment} {e e' : Engine} {a : Action}

/-! ## 1. Going on -/

theorem workerStep_of_at {i : Nat} {p : Phase} {s : WorkerStep} (h : e.At i p) :
    ∃ w, w.phase = p ∧ e.step? (.worker i s) = e.workerStep? i w s := by
  obtain ⟨w, hw, hp⟩ := at_iff.mp h
  exact ⟨w, hp, by simp [step?, hw]⟩

/-- A worker that waits for a job is found. -/
theorem waiter?_of_at (one : e.OneInSlot) {i id : Nat} {b : Assignment}
    (h : e.At i (.analysing b id)) : e.waiter? id = some (i, b) := by
  cases hw : e.waiter? id with
  | none => exact absurd h (not_at_of_waiter?_eq_none hw i b)
  | some jc =>
    obtain ⟨j, c⟩ := jc
    have other := at_of_waiter? hw
    cases one j i _ _ other h rfl rfl
    cases other.unique h
    rfl

/-- The event that a worker in a phase is about to tell of. -/
def toTell? (now : Instant) : Phase → Option Event
  | .announcing a _ (signal :: _) => some (.detected a.path signal now)
  | .closing a r _ => some (.completed a.path r.insights now)
  | .reporting a fault => some (.failed a.path fault.message now)
  | _ => none

/-- Worker `i` is about to tell of an event for which handlers call each other without end. -/
def IsHeldUp (e : Engine) (i : Nat) : Prop :=
  ∃ p event, e.At i p ∧ toTell? e.now p = some event ∧
    ∀ depth, EventBus.publish? depth e.bus event = none

/-- What is told of either settles, or a worker is held up with it. -/
theorem settles_or_isHeldUp {i : Nat} {p : Phase} {event : Event} (hp : e.At i p)
    (next : toTell? e.now p = some event) : e.bus.settles event = true ∨ e.IsHeldUp i := by
  by_cases settles : e.bus.settles event = true
  · exact .inl settles
  · refine .inr ⟨p, event, hp, next, fun depth => Option.eq_none_iff_forall_ne_some.mpr ?_⟩
    exact fun b' ends => settles (EventBus.settles_iff.mpr ⟨depth, b', ends⟩)

/-- **A worker with a task can go on** with it, without a collaborator that breaks down, unless the
    handlers called for what it is about to tell of never come to an end. -/
theorem Run.can_go_on (h : Run (built settings store isAdvised bus) past e) {i : Nat}
    {b : Assignment} (hb : e.hand? i = some b) :
    (∃ a e', a.isSound = true ∧ e.step? a = some e' ∧ (Moment.mk e a).hand? = some b) ∨
      e.IsHeldUp i := by
  obtain ⟨p, hp, hpb⟩ := at_of_hand? hb
  have so := soFar_course.hand h hp hpb
  have goes (s : WorkerStep) (sound : (Action.worker i s).isSound = true)
      (can : ∀ w : Worker, w.phase = p → (e.workerStep? i w s).isSome = true) :
      (∃ a e', a.isSound = true ∧ e.step? a = some e' ∧ (Moment.mk e a).hand? = some b) ∨
        e.IsHeldUp i := by
    obtain ⟨w, hw, step⟩ := workerStep_of_at (s := s) hp
    obtain ⟨e', he'⟩ := Option.isSome_iff_exists.mp (can w hw)
    exact .inl ⟨.worker i s, e', sound, step.trans he', hb⟩
  have tells (s : WorkerStep) (sound : (Action.worker i s).isSound = true) (event : Event)
      (q : Phase) (next : toTell? e.now p = some event)
      (step : ∀ w : Worker, w.phase = p → e.workerStep? i w s = e.tell? i event q) :
      (∃ a e', a.isSound = true ∧ e.step? a = some e' ∧ (Moment.mk e a).hand? = some b) ∨
        e.IsHeldUp i := by
    rcases settles_or_isHeldUp hp next with settles | heldUp
    · exact goes s sound fun w hw => by rw [step w hw, tell?, if_pos settles]; rfl
    · exact .inr heldUp
  cases p with
  | reading => exact goes (.endReading (.fault .missing)) rfl fun w hw => by simp [workerStep?, hw]
  | analysing c id =>
    cases hpb
    obtain ⟨-, -, ⟨job, there, hid⟩, -⟩ := so
    have found : (e.jobs.find? fun j => j.id == id).isSome = true := by
      rw [List.find?_isSome]
      exact ⟨job, there, by simp [hid]⟩
    obtain ⟨job', hj⟩ := Option.isSome_iff_exists.mp found
    have one := h.oneInSlot
    refine .inl
      ⟨.endJob id (.aborted ""), e.endJob job' (.aborted ""), rfl, by simp [step?, hj], ?_⟩
    simp [Moment.hand?, waiter?_of_at one hp]
  | announcing c r left =>
    cases left with
    | nil => exact goes .cache rfl fun w hw => by simp [workerStep?, hw]
    | cons signal left =>
      exact tells .announce rfl _ _ rfl fun w hw => by simp only [workerStep?, hw]; rfl
  | advising => exact goes (.advise none) rfl fun w hw => by simp [workerStep?, hw]
  | closing => exact tells .close rfl _ _ rfl fun w hw => by simp only [workerStep?, hw]; rfl
  | saving => exact goes (.save .tried) rfl fun w hw => by simp [workerStep?, hw]
  | refusing => exact goes .refuse rfl fun w hw => by simp [workerStep?, hw]
  | reporting => exact tells .report rfl _ _ rfl fun w hw => by simp only [workerStep?, hw]; rfl
  | _ => cases hpb

/-! ## 2. Who has a task -/

/-- **The worker that has a task took it**, and no other worker did. -/
theorem Run.taker (h : Run (built settings store isAdvised bus) past e) {i : Nat} {b : Assignment}
    (hb : e.hand? i = some b) (j : Nat) :
    (∃ m ∈ past, m.taken? = some (j, b.task)) ↔ j = i := by
  induction h generalizing i b j with
  | start => cases hb
  | @step past e e' a h hs ih =>
    have one := h.oneInSlot
    have walk := (effect_of_step hs).walk
    rcases walk.hand_cases hb with before | ⟨rfl, -, -, head⟩
    · rw [← ih before]
      constructor
      · rintro ⟨m, hm, taken⟩
        rcases List.mem_cons.mp hm with rfl | hm
        · rw [(walk.hand_of_taken one taken).2 i] at before
          cases before
        · exact ⟨m, hm, taken⟩
      · rintro ⟨m, hm, taken⟩
        exact ⟨m, List.mem_cons_of_mem _ hm, taken⟩
    · have now : (Moment.mk e (.worker i .take)).taken? = some (i, b.task) := by
        simp [Moment.taken?, head]
      constructor
      · rintro ⟨m, hm, taken⟩
        rcases List.mem_cons.mp hm with rfl | hm
        · cases now.symm.trans taken
          rfl
        · have before : b.task ∈ takenIn past :=
            List.mem_filterMap.mpr ⟨m, hm, by rw [taken]; rfl⟩
          exact absurd before (h.fresh_of_taken hs now)
      · rintro rfl
        exact ⟨_, List.mem_cons_self, now⟩

/-- **A task stays in the hand it is in** till it is done with. -/
theorem Run.kept (h : Run (built settings store isAdvised bus) past e) {i : Nat} {t : Task}
    (held : e.Holds i t) (h' : Run e later e') :
    e'.Holds i t ∨ t ∈ endedIn (later ++ past) := by
  obtain ⟨b, hb, rfl⟩ := Option.map_eq_some_iff.mp held
  have run := h.append h'
  have taken : b.task ∈ takenIn (later ++ past) := by
    rw [takenIn_append]
    exact List.mem_append_right _ (h.mem_takenIn_of_hand hb)
  rcases run.inHand_or_ended taken with still | ended
  · left
    obtain ⟨j, hj⟩ := mem_inHand.mp still
    obtain ⟨c, hc, same⟩ := Option.map_eq_some_iff.mp hj
    obtain ⟨m, hm, took⟩ := (h.taker hb i).mpr rfl
    rw [← same] at took
    have hij : i = j := (run.taker hc i).mp ⟨m, List.mem_append_right _ hm, took⟩
    rw [hij]
    exact hj
  · exact .inr ended

end Run

end Engine

end CodeInsight
