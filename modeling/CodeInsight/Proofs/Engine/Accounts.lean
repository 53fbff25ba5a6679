import CodeInsight.Proofs.Engine.Hands
import CodeInsight.Proofs.Queue.Identities

/-!
# Accounts of tasks

* two accounts are kept of every task: what was asked for waits, was replaced, was dropped or was
  taken (`Run.asked_account`), and what was taken is in a hand or was done with
  (`Run.taken_account`); one step keeps each of them (`asked_step`, `taken_step`);
* **no task is asked for twice** (`Run.askedIn_nodup`), because requests have ever later times; so
  no entry of an account is more than one.
-/

namespace CodeInsight

/-! ## 1. The queue -/

theorem count_filterMap_cons {α β : Type} [BEq β] (f : α → Option β) (x : α) (xs : List α) (y : β) :
    ((x :: xs).filterMap f).count y = (f x).toList.count y + (xs.filterMap f).count y := by
  cases hf : f x <;> simp [hf, List.count_cons, Nat.add_comm]

namespace TaskQueue

/-- A task put in its place is one more task, wherever the place is. -/
theorem count_insert (s t : Task) (ts : List Task) :
    (insert s ts).count t = (s :: ts).count t := by
  unfold insert
  split
  · rfl
  · simp [List.count_append, List.count_cons]

/-- Putting a task in its place adds its path. -/
theorem paths_insert (t : Task) (ts : List Task) :
    ((insert t ts).map (·.path)).Perm (t.path :: ts.map (·.path)) := by
  unfold insert
  split
  · exact .refl _
  · rw [List.map_append]
    exact List.perm_append_singleton _ _

/-- Removing the task for a path removes what is found for it. -/
theorem count_remove (q : TaskQueue) (path : String) (t : Task) :
    q.tasks.count t = (q.remove path).2.tasks.count t + (q.find? path).toList.count t := by
  unfold remove find?
  dsimp only
  induction q.tasks with
  | nil => rfl
  | cons s ts ih =>
    by_cases hs : s.path = path
    · simp [hs, List.count_cons]
    · simp only [List.eraseP_cons, List.find?_cons, beq_eq_false_iff_ne.mpr hs, List.count_cons,
        cond_false]
      omega

/-- What is found for a path waits, and is for the path. -/
theorem of_find? {q : TaskQueue} {path : String} {t : Task} (h : q.find? path = some t) :
    t ∈ q.tasks ∧ t.path = path := by
  refine ⟨List.mem_of_find?_eq_some h, ?_⟩
  simpa using List.find?_some h

end TaskQueue

namespace Engine

/-! ## 2. What a moment has to do with tasks -/

theorem after_of_step {e e' : Engine} {a : Action} (hs : e.step? a = some e') :
    (Moment.mk e a).after = e' := by
  simp [Moment.after, hs]

/-- A step aside has to do with no task. -/
theorem untouched_of_isAside {e : Engine} {a : Action} (h : a.isAside = true) :
    (Moment.mk e a).asked? = none ∧ (Moment.mk e a).replaced? = none ∧
      (Moment.mk e a).dropped = [] ∧ (Moment.mk e a).taken? = none := by
  cases a with
  | worker i s => cases s <;> first | exact ⟨rfl, rfl, rfl, rfl⟩ | cases h
  | _ => first | exact ⟨rfl, rfl, rfl, rfl⟩ | cases h

section Step

variable {e e' : Engine} {a : Action}

/-- **One step keeps the account of what was asked for.** -/
theorem asked_step (hs : e.step? a = some e') (t : Task) :
    e.queue.tasks.count t + (Moment.mk e a).asked?.toList.count t =
      e'.queue.tasks.count t + (Moment.mk e a).replaced?.toList.count t +
        (Moment.mk e a).dropped.count t +
          ((Moment.mk e a).taken?.map (·.2)).toList.count t := by
  cases effect_of_step hs with
  | aside ha _ same _ =>
    obtain ⟨asked, replaced, dropped, taken⟩ := untouched_of_isAside (e := e) ha
    rw [asked, replaced, dropped, taken, same.queue]
    rfl
  | takeNothing h empty =>
    show e.queue.tasks.count t + 0 = e.queue.tasks.count t + 0 + 0 + _
    simp [Moment.taken?, empty]
  | take h head =>
    simp [Moment.asked?, Moment.replaced?, Moment.dropped, Moment.taken?, head, move,
      List.count_cons]
  | @request path priority kind time hs ht silent =>
    have removed := e.queue.count_remove path t
    have hn : e.queue.nextTime e.now = time := by simp [TaskQueue.nextTime, ht]
    have asked : (Moment.mk e (.request path priority kind)).asked? =
        some (Task.of path priority kind time) := by
      simp [Moment.asked?, ht, Engine.request, TaskQueue.enqueue, hn]
    rw [asked, TaskQueue.count_insert]
    simp only [Moment.replaced?, Moment.dropped, Moment.taken?, Option.toList_some, List.count_cons,
      List.count_nil, Option.map_none, Option.toList_none]
    omega
  | @requestBreaksOff path priority kind hs ht silent =>
    have removed := e.queue.count_remove path t
    simpa [Moment.asked?, Moment.replaced?, Moment.dropped, Moment.taken?, ht] using removed
  | clear => simp [Moment.asked?, Moment.replaced?, Moment.dropped, Moment.taken?, TaskQueue.clear]
  | @breakdown i s p hs h busy unsound silent =>
    cases s <;> first | cases unsound | rfl
  | loadBegins | loadAnswered | loadCached | loadNotCached | content | unreadable | outOfTime
  | announce | cached | notCached | advise | close | saved | notSaved | emptied | notEmptied
  | report | analysed | notAnalysed | jobLost => rfl

/-- Nothing is done with where no hand has changed. -/
theorem ended?_of_hand (hs : e.step? a = some e') (same : ∀ i, e'.hand? i = e.hand? i) :
    (Moment.mk e a).ended? = none := by
  unfold Moment.ended?
  rw [after_of_step hs]
  cases a with
  | worker i s =>
    dsimp only
    rw [same]
    split
    · rename_i h
      rw [h]
      rfl
    · rfl
  | _ => rfl

/-- What is done with was in the hand of the worker that moved, and is not any more. -/
theorem of_ended? (hs : e.step? a = some e') {t : Task} (ended : (Moment.mk e a).ended? = some t) :
    ∃ i s b, a = .worker i s ∧ e.hand? i = some b ∧ b.task = t ∧ e'.hand? i = none := by
  unfold Moment.ended? at ended
  rw [after_of_step hs] at ended
  cases a with
  | worker i s =>
    dsimp only at ended
    split at ended
    · rename_i gone
      obtain ⟨b, hb, ht⟩ := Option.map_eq_some_iff.mp ended
      exact ⟨i, s, b, rfl, hb, ht, gone⟩
    · cases ended
  | _ => cases ended

/-- **One step keeps the account of what was taken.** -/
theorem taken_step (hs : e.step? a = some e') (t : Task) :
    e.inHand.count t + ((Moment.mk e a).taken?.map (·.2)).toList.count t =
      e'.inHand.count t + (Moment.mk e a).ended?.toList.count t := by
  cases (effect_of_step hs).walk with
  | aside ha _ same _ =>
    rw [ended?_of_hand hs same.hand?, (untouched_of_isAside ha).2.2.2, same.inHand]
    rfl
  | nothing i h ha empty same _ =>
    subst ha
    rw [ended?_of_hand hs same.hand?, same.inHand]
    simp [Moment.taken?, empty]
  | still ha own _ same =>
    rw [ended?_of_hand hs (hand?_of_phases same), inHand, inHand, same]
    cases a with
    | worker i s => exact absurd rfl (own i s)
    | _ => rfl
  | take i s ts h ha head moved =>
    subst ha
    have counts := count_inHand_of_move moved h t
    have kept : (Moment.mk e (.worker i .take)).ended? = none := by
      simp [Moment.ended?, hand?_of_at h, Phase.assignment?]
    rw [kept]
    simpa [Moment.taken?, head, Phase.task?, Phase.assignment?] using counts.symm
  | work i p₀ p h busy worked ha hand nearer moved =>
    have counts := count_inHand_of_move moved h t
    have here : e'.hand? i = p.assignment? := by rw [hand?_of_move moved h, if_pos rfl]
    have taken : (Moment.mk e a).taken? = none := by
      cases a with
      | worker j s => cases s <;> first | exact absurd rfl (ha j) | rfl
      | _ => rfl
    rw [taken]
    rcases hand with same | ⟨gone, ⟨s, rfl⟩, -⟩
    · -- the task stays in the hand, whoever moved
      have kept : ∀ j, e'.hand? j = e.hand? j := by
        intro j
        rw [hand?_of_move moved h]
        split
        · subst_vars; rw [same, hand?_of_at h]
        · rfl
      rw [ended?_of_hand hs kept]
      simp only [Phase.task?, same] at counts
      simp
      omega
    · have ended : (Moment.mk e (.worker i s)).ended? = p₀.task? := by
        unfold Moment.ended?
        rw [after_of_step hs]
        dsimp only
        rw [here, gone, if_pos rfl, hand?_of_at h, Phase.task?]
      rw [ended]
      simp only [Phase.task?, gone] at counts
      simpa [Phase.task?] using counts.symm

/-- A step asks for a task at the time of the next request, or leaves the time of the latest. -/
theorem asked_time (hs : e.step? a = some e') :
    (Moment.mk e a).asked? = none ∧ e'.queue.lastTime = e.queue.lastTime ∨
      ∃ t, (Moment.mk e a).asked? = some t ∧
        e.queue.nextTime? e.now = some t.enqueuedAt ∧ e'.queue.lastTime = some t.enqueuedAt := by
  cases effect_of_step hs with
  | aside ha _ same _ => exact .inl ⟨(untouched_of_isAside ha).1, by rw [same.queue]⟩
  | @request path priority kind time hs ht silent =>
    right
    have hn : e.queue.nextTime e.now = time := by simp [TaskQueue.nextTime, ht]
    refine ⟨Task.of path priority kind time, ?_, ht, rfl⟩
    simp [Moment.asked?, ht, Engine.request, TaskQueue.enqueue, hn]
  | requestBreaksOff ht => exact .inl ⟨by simp [Moment.asked?, ht], rfl⟩
  | takeNothing | take | clear | loadBegins | loadAnswered | loadCached | loadNotCached | content
  | unreadable | outOfTime | announce | cached | notCached | advise | close | saved | notSaved
  | emptied | notEmptied | report | breakdown | analysed | notAnalysed | jobLost =>
    exact .inl ⟨rfl, rfl⟩

end Step

/-! ## 3. Runs -/

section Lists

variable {m : Moment} {past : List Moment} {t : Task}

theorem askedIn_cons (m : Moment) (past : List Moment) :
    askedIn (m :: past) = m.asked?.toList ++ askedIn past := by
  cases h : m.asked? <;> simp [askedIn, h]

theorem replacedIn_cons (m : Moment) (past : List Moment) :
    replacedIn (m :: past) = m.replaced?.toList ++ replacedIn past := by
  cases h : m.replaced? <;> simp [replacedIn, h]

theorem takenIn_cons (m : Moment) (past : List Moment) :
    takenIn (m :: past) = (m.taken?.map (·.2)).toList ++ takenIn past := by
  cases h : m.taken? <;> simp [takenIn, h]

theorem askedIn_append (later past : List Moment) :
    askedIn (later ++ past) = askedIn later ++ askedIn past := List.filterMap_append

theorem takenIn_append (later past : List Moment) :
    takenIn (later ++ past) = takenIn later ++ takenIn past := List.filterMap_append

theorem replacedIn_append (later past : List Moment) :
    replacedIn (later ++ past) = replacedIn later ++ replacedIn past := List.filterMap_append

theorem droppedIn_append (later past : List Moment) :
    droppedIn (later ++ past) = droppedIn later ++ droppedIn past := List.flatMap_append

theorem workOn_cons_of_worked {b : Assignment} (h : m.hand? = some b) :
    workOn (m :: past) b.task = m :: workOn past b.task := by
  simp [workOn, h]

theorem workOn_cons_of_ne (h : m.hand?.map (·.task) ≠ some t) :
    workOn (m :: past) t = workOn past t := by
  unfold workOn
  rw [List.filter_cons, if_neg (by simpa using h)]

end Lists

section Run

variable {settings : Settings} {store : InsightStore} {isAdvised : Bool} {bus : EventBus}
variable {past : List Moment} {e e' : Engine} {a : Action}

/-- **What was asked for** waits, was replaced, was dropped or was taken. -/
theorem Run.asked_account (h : Run (built settings store isAdvised bus) past e) (t : Task) :
    (askedIn past).count t =
      e.queue.tasks.count t + (replacedIn past).count t + (droppedIn past).count t +
        (takenIn past).count t := by
  induction h with
  | start => rfl
  | @step past e e' a h hs ih =>
    have step := asked_step hs t
    unfold askedIn replacedIn takenIn droppedIn at *
    rw [count_filterMap_cons, count_filterMap_cons, count_filterMap_cons, List.flatMap_cons,
      List.count_append]
    omega

/-- Whatever waits, had to give way or was taken was asked for. -/
theorem Run.asked_of_account (h : Run (built settings store isAdvised bus) past e) {t : Task}
    (entered : t ∈ e.queue.tasks ∨ t ∈ replacedIn past ∨ t ∈ takenIn past) :
    t ∈ askedIn past := by
  have account := h.asked_account t
  refine List.count_pos_iff.mp ?_
  rcases entered with waits | replaced | taken
  · have := List.count_pos_iff.mpr waits
    omega
  · have := List.count_pos_iff.mpr replaced
    omega
  · have := List.count_pos_iff.mpr taken
    omega

/-- **What was taken** is in a hand or was done with. -/
theorem Run.taken_account (h : Run (built settings store isAdvised bus) past e) (t : Task) :
    (takenIn past).count t = e.inHand.count t + (endedIn past).count t := by
  induction h with
  | start => rfl
  | @step past e e' a h hs ih =>
    have step := taken_step hs t
    unfold takenIn endedIn at *
    rw [count_filterMap_cons, count_filterMap_cons]
    omega

/-- No task was asked for after the time of the latest request. -/
theorem Run.askedIn_notAfter (h : Run (built settings store isAdvised bus) past e) :
    ∀ t ∈ askedIn past, ∃ last, e.queue.lastTime = some last ∧
      t.enqueuedAt.notAfter last = true := by
  induction h with
  | start =>
    intro t ht
    cases ht
  | @step past e e' a h hs ih =>
    intro t ht
    rcases asked_time hs with ⟨asked, same⟩ | ⟨s, asked, next, latest⟩
    · rw [askedIn, List.filterMap_cons_none asked] at ht
      rw [same]
      exact ih t ht
    · rw [askedIn, List.filterMap_cons_some asked] at ht
      refine ⟨s.enqueuedAt, latest, ?_⟩
      rcases List.mem_cons.mp ht with rfl | ht
      · exact Instant.notAfter_refl _
      · obtain ⟨last, hl, before⟩ := ih t ht
        have later := TaskQueue.nextTime?_later hl next
        exact Instant.notAfter_trans before (Instant.notAfter_total later)

/-- **No task is asked for twice.** -/
theorem Run.askedIn_nodup (h : Run (built settings store isAdvised bus) past e) :
    (askedIn past).Nodup := by
  induction h with
  | start => exact List.nodup_nil
  | @step past e e' a h hs ih =>
    rcases asked_time hs with ⟨asked, -⟩ | ⟨s, asked, next, -⟩
    · rw [askedIn, List.filterMap_cons_none asked]
      exact ih
    · rw [askedIn, List.filterMap_cons_some asked]
      refine List.nodup_cons.mpr ⟨fun hm => ?_, ih⟩
      obtain ⟨last, hl, before⟩ := h.askedIn_notAfter s hm
      rw [TaskQueue.nextTime?_later hl next] at before
      cases before

/-- The account of a task that was asked for: it is exactly one thing. -/
theorem Run.account (h : Run (built settings store isAdvised bus) past e) {t : Task}
    (asked : t ∈ askedIn past) :
    e.queue.tasks.count t + (replacedIn past).count t + (droppedIn past).count t +
      e.inHand.count t + (endedIn past).count t = 1 := by
  have once : (askedIn past).count t = 1 := by rw [h.askedIn_nodup.count, if_pos asked]
  have := h.asked_account t
  have := h.taken_account t
  omega

/-- **No task is taken twice.** -/
theorem Run.takenIn_nodup (h : Run (built settings store isAdvised bus) past e) :
    (takenIn past).Nodup := by
  refine List.nodup_iff_count.mpr fun t => ?_
  have asked := List.nodup_iff_count.mp h.askedIn_nodup t
  have account := h.asked_account t
  omega

/-- What is taken just now was not taken before. -/
theorem Run.fresh_of_taken (h : Run (built settings store isAdvised bus) past e)
    (hs : e.step? a = some e') {i : Nat} {t : Task}
    (taken : (Moment.mk e a).taken? = some (i, t)) : t ∉ takenIn past := by
  have nodup := (h.step hs).takenIn_nodup
  rw [takenIn_cons, taken] at nodup
  exact (List.nodup_cons.mp nodup).1

theorem Run.mem_takenIn_of_hand (h : Run (built settings store isAdvised bus) past e) {i : Nat}
    {b : Assignment} (hb : e.hand? i = some b) : b.task ∈ takenIn past := by
  have held := List.count_pos_iff.mpr (mem_inHand_of_hand hb)
  have account := h.taken_account b.task
  exact List.count_pos_iff.mp (by omega)

/-- What was worked on was taken before. -/
theorem Run.mem_takenIn_of_worked (h : Run (built settings store isAdvised bus) past e) :
    ∀ m ∈ past, ∀ b, m.hand? = some b → b.task ∈ takenIn past := by
  induction h with
  | start => intro m hm; cases hm
  | @step past e e' a h hs ih =>
    intro m hm b hb
    rw [takenIn_cons]
    refine List.mem_append_right _ ?_
    rcases List.mem_cons.mp hm with rfl | hm
    · obtain ⟨i, hi⟩ := hand_of_worked hb
      exact h.mem_takenIn_of_hand hi
    · exact ih m hm b hb

/-- A task that was never taken was never worked on. -/
theorem Run.workOn_eq_nil (h : Run (built settings store isAdvised bus) past e) {t : Task}
    (ht : t ∉ takenIn past) : workOn past t = [] := by
  refine List.filter_eq_nil_iff.mpr fun m hm worked => ?_
  obtain ⟨b, hb, rfl⟩ := Option.map_eq_some_iff.mp (of_decide_eq_true worked)
  exact ht (h.mem_takenIn_of_worked m hm b hb)

/-- A task that was taken is in a hand or done with. -/
theorem Run.inHand_or_ended (h : Run (built settings store isAdvised bus) past e) {t : Task}
    (taken : t ∈ takenIn past) : t ∈ e.inHand ∨ t ∈ endedIn past := by
  by_cases held : t ∈ e.inHand
  · exact .inl held
  · right
    have account := h.taken_account t
    have := List.count_pos_iff.mpr taken
    have := List.count_eq_zero.mpr held
    exact List.count_pos_iff.mp (by omega)

/-- A task that is done with is in no hand. -/
theorem Run.not_inHand_of_ended (h : Run (built settings store isAdvised bus) past e) {t : Task}
    (ht : t ∈ endedIn past) : t ∉ e.inHand := by
  intro held
  have once := List.nodup_iff_count.mp h.takenIn_nodup t
  have account := h.taken_account t
  have := List.count_pos_iff.mpr ht
  have := List.count_pos_iff.mpr held
  omega

end Run

end Engine

end CodeInsight
