import CodeInsight.Proofs.Engine.Accounts

/-!
# The course of a task

* a `Course` is a property of a worker with a task and of the moments in which the task was worked
  on: it holds when the task is taken, is left alone by steps on nothing, and goes on with each step
  on the task;
* **a course holds of every worker** with its task in every run (`Course.hand`), and it held of
  every task that is done with (`Course.ended`);
* the pace is one: a task is worked on less than nine times (`Run.pace`).
-/

namespace CodeInsight.Engine

/-! ## 1. Going on -/

section Step

variable {e e' : Engine} {a : Action}

/-- What is worked on when a worker moves is what it has in its hand. -/
theorem worked_of_at {i : Nat} {p : Phase} {s : WorkerStep} (h : e.At i p) :
    (Moment.mk e (.worker i s)).hand? = p.assignment? :=
  hand?_of_at h

/-- What holds of a worker goes on with it if it goes on from the phase it is in. -/
theorem goes_on (Q Q' : Assignment → Phase → Prop) {b : Assignment}
    (worked : (Moment.mk e a).hand? = some b)
    (so : ∀ i p, e.At i p → p.assignment? = some b → Q b p) {i : Nat} {p₀ p : Phase}
    {c : Assignment} (h : e.At i p₀) (hc : p₀.assignment? = some c)
    (hw : (Moment.mk e a).hand? = some c) (moved : e'.phases = e.phases.set i p)
    (next : Q c p₀ → Q' c p) :
    ∃ i p, e.hand? i = some b ∧ e'.phases = e.phases.set i p ∧ Q' b p := by
  cases worked.symm.trans hw
  exact ⟨i, p, (hand?_of_at h).trans hc, moved, next (so i p₀ h hc)⟩

end Step

/-! ## 2. Courses -/

/-- A property of an engine, an assignment, the phase of the worker that has it, and the moments in
    which the task was worked on, the latest first. -/
structure Course (settings : Settings) (store : InsightStore) (isAdvised : Bool) (bus : EventBus)
    (Q : Engine → Assignment → Phase → List Moment → Prop) : Prop where
  fresh : ∀ e b, Q e b (.reading b) []
  idle : ∀ {e e' : Engine} {a : Action} {i : Nat} {p : Phase} {b : Assignment}
    {work : List Moment}, e.step? a = some e' → (Moment.mk e a).hand? = none → e.At i p →
      Q e b p work → Q e' b p work
  work : ∀ {past : List Moment} {e e' : Engine} {a : Action} {b : Assignment},
    Run (built settings store isAdvised bus) past e → e.step? a = some e' →
      (Moment.mk e a).hand? = some b →
        (∀ i p, e.At i p → p.assignment? = some b → Q e b p (workOn past b.task)) →
          ∃ i p, e.hand? i = some b ∧ e'.phases = e.phases.set i p ∧
            Q e' b p (⟨e, a⟩ :: workOn past b.task)

section Course

variable {settings : Settings} {store : InsightStore} {isAdvised : Bool} {bus : EventBus}
variable {Q : Engine → Assignment → Phase → List Moment → Prop}
variable {past : List Moment} {e e' : Engine} {a : Action}

/-- A step on a task moves the one worker that has it, and what is left of it is one of these. -/
theorem Course.worked (c : Course settings store isAdvised bus Q)
    (h : Run (built settings store isAdvised bus) past e) (hs : e.step? a = some e')
    {b : Assignment} (worked : (Moment.mk e a).hand? = some b)
    (ih : ∀ i p, e.At i p → p.assignment? = some b → Q e b p (workOn past b.task)) :
    ∃ i p₀ p, e.At i p₀ ∧ p₀.assignment? = some b ∧ e'.phases = e.phases.set i p ∧
      (p.assignment? = some b ∨ p.assignment? = none ∧ (a.isSound = true → p = .finishing)) ∧
        Q e' b p (⟨e, a⟩ :: workOn past b.task) := by
  have one := h.oneInSlot
  obtain ⟨i, p, hb, moved, q⟩ := c.work h hs worked ih
  obtain ⟨j, p₀, p', hp₀, hc, moved', -, hand⟩ := (effect_of_step hs).walk.of_worked worked
  cases one.hand_unique hb ((hand?_of_at hp₀).trans hc)
  have here : e'.At i p := (at_of_move moved hp₀).mpr (by rw [if_pos rfl])
  have here' : e'.At i p' := (at_of_move moved' hp₀).mpr (by rw [if_pos rfl])
  cases here.unique here'
  exact ⟨i, p₀, p, hp₀, hc, moved, hand, q⟩

/-- **A course holds of every worker with a task.** -/
theorem Course.hand (c : Course settings store isAdvised bus Q)
    (h : Run (built settings store isAdvised bus) past e) {i : Nat} {p : Phase} {b : Assignment}
    (hp : e.At i p) (hb : p.assignment? = some b) : Q e b p (workOn past b.task) := by
  induction h generalizing i p b with
  | start => cases hp
  | @step past e e' a h hs ih =>
    have one := h.oneInSlot
    cases worked : (Moment.mk e a).hand? with
    | none =>
      rw [workOn_cons_of_ne (by simp [worked])]
      rcases (effect_of_step hs).walk.at_cases hp hb with before | ⟨taken, rfl⟩ | works
      · exact c.idle hs worked before (ih before hb)
      · -- nothing was done for a task that was just taken
        rw [h.workOn_eq_nil (h.fresh_of_taken hs taken)]
        exact c.fresh e' b
      · exact absurd worked works
    | some d =>
      obtain ⟨j, p₀, q, hp₀, hd, moved, kept, hq⟩ :=
        c.worked h hs worked fun i p hp hd => ih hp hd
      rw [at_of_move moved hp₀] at hp
      split at hp
      · subst hp
        rcases kept with kept | ⟨gone, -⟩
        · cases kept.symm.trans hb
          rw [workOn_cons_of_worked worked]
          exact hq
        · rw [gone] at hb
          cases hb
      · rename_i other
        have hand := (hand?_of_at hp).trans hb
        exact absurd (one.hand_unique hand ((hand?_of_at hp₀).trans hd)) other

/-- **A course held of every task that is done with**, when its worker was done with it. -/
theorem Course.ended (c : Course settings store isAdvised bus Q)
    (h : Run (built settings store isAdvised bus) past e) {t : Task} (ht : t ∈ endedIn past) :
    ∃ e₁ b p, b.task = t ∧ p.assignment? = none ∧
      ((∀ m ∈ past, m.action.isSound = true) → p = .finishing) ∧ Q e₁ b p (workOn past t) := by
  induction h with
  | start => cases ht
  | @step past e e' a h hs ih =>
    obtain ⟨m, hm, ended⟩ := List.mem_filterMap.mp ht
    rcases List.mem_cons.mp hm with rfl | hm
    · -- the worker has done with the task just now
      obtain ⟨i, s, b, rfl, hb, rfl, gone⟩ := of_ended? hs ended
      have worked : (Moment.mk e (.worker i s)).hand? = some b := hb
      obtain ⟨j, p₀, p, hp₀, hd, moved, kept, q⟩ :=
        c.worked h hs worked fun i p hp hd => c.hand h hp hd
      have one := h.oneInSlot
      cases one.hand_unique hb ((hand?_of_at hp₀).trans hd)
      rw [hand?_of_move moved hp₀, if_pos rfl] at gone
      rcases kept with kept | ⟨-, last⟩
      · rw [kept] at gone
        cases gone
      · rw [workOn_cons_of_worked worked]
        exact ⟨e', b, p, rfl, gone, fun sound => last (sound _ List.mem_cons_self), q⟩
    · -- it was done with before, and nobody works on it any more
      have before : t ∈ endedIn past := List.mem_filterMap.mpr ⟨m, hm, ended⟩
      have others : (Moment.mk e a).hand?.map (·.task) ≠ some t := by
        intro worked
        obtain ⟨b, hb, rfl⟩ := Option.map_eq_some_iff.mp worked
        obtain ⟨i, hi⟩ := hand_of_worked hb
        exact h.not_inHand_of_ended before (mem_inHand_of_hand hi)
      obtain ⟨e₁, b, p, hb, gone, last, q⟩ := ih before
      rw [workOn_cons_of_ne others]
      exact ⟨e₁, b, p, hb, gone,
        fun sound => last fun m hm => sound m (List.mem_cons_of_mem _ hm), q⟩

/-- What a worker has done with its task and what is left for it are nine steps at most. -/
theorem Run.pace (h : Run (built settings store isAdvised bus) past e) {i : Nat} {p : Phase}
    {b : Assignment} (hp : e.At i p) (hb : p.assignment? = some b) :
    (workOn past b.task).length + p.left ≤ 9 := by
  have course : Course settings store isAdvised bus fun _ _ p work =>
      work.length + p.left ≤ 9 := by
    refine ⟨fun _ _ => Nat.le_refl 9, fun _ _ _ q => q, fun h hs worked q => ?_⟩
    obtain ⟨i, p₀, p, hp₀, hb, moved, nearer, -⟩ := (effect_of_step hs).walk.of_worked worked
    have before := q i p₀ hp₀ hb
    refine ⟨i, p, (hand?_of_at hp₀).trans hb, moved, ?_⟩
    rw [List.length_cons]
    omega
  exact course.hand h hp hb

end Course

end CodeInsight.Engine
