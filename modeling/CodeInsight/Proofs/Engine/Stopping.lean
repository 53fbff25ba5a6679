import CodeInsight.Proofs.Engine.Lives
import CodeInsight.Proofs.Engine.Telling

/-!
# Starting and stopping

* while every worker was told to stop, none comes to take a task, so a place among the workers that
  is given up is not taken again (`Once`): it is used up at most once (`Run.spent_le_one`);
* so is the place from which a task is taken (`once_takes`), and the one from which it is told how
  the work on a task ended (`once_tells`);
* what nobody takes, replaces or drops stays in the queue in its order (`Run.keepsOrder`);
* **the discipline of starting and stopping** holds in every run (`Run.discipline`): one worker in
  the slot, only the last one not told to stop, and from a stop to the next start one task taken
  and one end told of at most.
-/

namespace CodeInsight

/-- Whether a worker may still tell how the work on a task ended. -/
def Phase.isOpen : Phase → Bool
  | taking | reading _ | analysing _ _ | announcing _ _ _ | advising _ _ _ | closing _ _ _
  | refusing _ _ | reporting _ _ => true
  | _ => false

/-- Whether the engine is to be started. -/
def Action.isStart : Action → Bool
  | start => true
  | _ => false

namespace Moment

/-- How many tasks were taken. -/
def takes (m : Moment) : Nat := m.taken?.toList.length

/-- How many ends of the work on a task were told of. -/
def tells (m : Moment) : Nat := (m.told.filter Event.isTerminal).length

end Moment

theorem length_takenIn (past : List Moment) :
    (takenIn past).length = (past.map Moment.takes).sum := by
  induction past with
  | nil => rfl
  | cons m past ih =>
    rw [Engine.takenIn_cons, List.length_append, ih, List.map_cons, List.sum_cons, Moment.takes]
    cases m.taken? <;> rfl

theorem length_toldIn (past : List Moment) :
    ((toldIn past).filter Event.isTerminal).length = (past.map Moment.tells).sum := by
  induction past with
  | nil => rfl
  | cons m past ih => simp [toldIn_cons, Moment.tells, ih, Nat.add_comm]

namespace Engine

variable {e e' e₀ : Engine} {a : Action} {past later : List Moment}

/-! ## 1. All workers were told to stop -/

/-- Only starting adds a worker. -/
theorem length_tokens_of_step (hs : e.step? a = some e') (noStart : a.isStart = false) :
    e'.tokens.length = e.tokens.length := by
  cases lifecycle_of_step hs with
  | same same => rw [same.tokens]
  | start => cases noStart
  | stop | stops => exact length_tokens_stop e
  | begins | takesUp | returns => rfl

/-- Every worker was told to stop. -/
def AllTold (e : Engine) : Prop := ∀ i < e.tokens.length, e.Cancelled i

theorem AllTold.step (all : e.AllTold) (hs : e.step? a = some e') (noStart : a.isStart = false) :
    e'.AllTold := by
  have same := length_tokens_of_step hs noStart
  exact fun i hi => (lifecycle_of_step hs).grown.cancelled i (all i (same ▸ hi))

/-- When the engine has been stopped every worker was told to. -/
theorem Succession.allTold (one : e.Succession) (hs : e.step? a = some e')
    (stops : (Moment.mk e a).stopsEngine = true) : e'.AllTold := by
  have told : e.stop.AllTold := fun i hi => one.cancelled_stop (length_tokens_stop e ▸ hi)
  cases a with
  | stop =>
    cases hs
    exact told
  | shutdownGoesOn k =>
    have begun : e.shutdowns[k]? = some .begun := by simpa [Moment.stopsEngine] using stops
    rw [step?, shutdownGoesOn, begun] at hs
    cases hs
    exact told
  | _ => cases stops

/-- Nobody comes to take a task any more. -/
theorem AllTold.taking (all : e.AllTold) (hs : e.step? a = some e') {i : Nat}
    (h : e'.At i .taking) : e.At i .taking := by
  rcases caused_of_step hs i _ h with before | ⟨-, kept⟩
  · exact before
  · have told : e.Cancelled i := all i (List.getElem?_eq_some_iff.mp kept).1
    rw [Cancelled, kept] at told
    cases told

/-! ## 2. Places that are used up once -/

/-- Some worker is at such a place. -/
def Somebody (K : Phase → Bool) (e : Engine) : Prop := ∃ i p, e.At i p ∧ K p = true

/-- A place is used up at most **once** while every worker was told to stop: nobody comes to it, and
    whoever spends something leaves it empty. -/
structure Once (K : Phase → Bool) (spends : Moment → Nat) : Prop where
  keeps : ∀ {e e' : Engine} {a : Action}, e.AllTold → e.step? a = some e' → Somebody K e' →
    Somebody K e
  spent : ∀ {e e' : Engine} {a : Action}, e.OneInSlot → e.step? a = some e' →
    spends ⟨e, a⟩ = 0 ∨ spends ⟨e, a⟩ = 1 ∧ Somebody K e ∧ ¬ Somebody K e'

/-- **What is used up once is spent once at most.** -/
theorem Run.spent_le_one {K : Phase → Bool} {spends : Moment → Nat} (once : Once K spends)
    (run : Run e₀ later e) (all : e₀.AllTold) (one : e₀.OneInSlot)
    (noStart : ∀ m ∈ later, m.action.isStart = false) : (later.map spends).sum ≤ 1 := by
  have spent : e.AllTold ∧ e.OneInSlot ∧ ((later.map spends).sum = 0 ∨
      (later.map spends).sum = 1 ∧ ¬ Somebody K e) := by
    induction run with
    | start => exact ⟨all, one, .inl rfl⟩
    | step _ hs ih =>
      obtain ⟨all, one, before⟩ := ih fun m hm => noStart m (List.mem_cons_of_mem _ hm)
      refine ⟨all.step hs (noStart _ List.mem_cons_self),
        (effect_of_step hs).walk.oneInSlot one, ?_⟩
      rw [List.map_cons, List.sum_cons]
      rcases once.spent one hs with nothing | ⟨something, there, gone⟩ <;>
        rcases before with none' | ⟨already, nobody⟩
      · exact .inl (by omega)
      · exact .inr ⟨by omega, fun now => nobody (once.keeps all hs now)⟩
      · exact .inr ⟨by omega, gone⟩
      · exact absurd there nobody
  obtain ⟨-, -, none' | ⟨already, -⟩⟩ := spent <;> omega

/-- When the one worker at a place leaves it, nobody is left there. -/
theorem OneInSlot.nobody {K : Phase → Bool} (one : e.OneInSlot)
    (slot : ∀ p, K p = true → p.inSlot = true) {i : Nat} {p₀ p : Phase} (h : e.At i p₀)
    (there : K p₀ = true) (gone : K p = false) (moved : e'.phases = e.phases.set i p) :
    ¬ Somebody K e' := by
  rintro ⟨j, q, hq, hK⟩
  rw [at_of_move moved h] at hq
  split at hq
  · rw [hq, gone] at hK
    cases hK
  · rename_i other
    exact other (one j i q p₀ hq h (slot q hK) (slot p₀ there))

/-! ## 3. Taking -/

theorem once_takes : Once (· == .taking) Moment.takes where
  keeps all hs := by
    rintro ⟨i, p, hp, taking⟩
    rw [beq_iff_eq] at taking
    subst taking
    exact ⟨i, _, all.taking hs hp, rfl⟩
  spent {e e' a} one hs := by
    unfold Moment.takes
    cases taken : (Moment.mk e a).taken? with
    | none => exact .inl rfl
    | some it =>
      obtain ⟨-, taking, -, moved⟩ := (effect_of_step hs).walk.of_taken taken
      refine .inr ⟨rfl, ⟨_, _, taking, rfl⟩, one.nobody ?_ taking rfl rfl moved⟩
      intro p hp
      rw [beq_iff_eq] at hp
      rw [hp]
      rfl

/-! ## 4. Telling -/

theorem inSlot_of_open {p : Phase} (h : p.isOpen = true) : p.inSlot = true := by
  cases p <;> first | rfl | cases h

/-- Who is open is about to take a task or has one that is not just being saved. -/
theorem open_cases {p : Phase} (h : p.isOpen = true) : p = .taking ∨ p.assignment? ≠ none := by
  cases p <;> first | exact .inl rfl | exact .inr (Option.some_ne_none _) | cases h

/-- Who has more to do with its task than to save insights is open. -/
theorem open_of_left {p : Phase} (h : 1 < p.left) : p.isOpen = true := by
  cases p <;> first | rfl | simp [Phase.left] at h

/-- Nobody comes to be open any more. -/
theorem AllTold.somebody_open (all : e.AllTold) (hs : e.step? a = some e')
    (now : Somebody Phase.isOpen e') : Somebody Phase.isOpen e := by
  obtain ⟨i, p, hp, isOpen⟩ := now
  rcases open_cases isOpen with rfl | busy
  · exact ⟨i, _, all.taking hs hp, rfl⟩
  · cases (effect_of_step hs).walk with
    | aside _ _ same => exact ⟨i, p, (same.busy i p busy).mp hp, isOpen⟩
    | nothing _ _ _ _ same => exact ⟨i, p, (same.busy i p busy).mp hp, isOpen⟩
    | still _ _ _ same =>
      rw [At, same] at hp
      exact ⟨i, p, hp, isOpen⟩
    | take j _ _ h _ _ moved => exact ⟨j, _, h, rfl⟩
    | work j p₀ p' h busy' _ _ hand nearer moved =>
      rw [at_of_move moved h] at hp
      split at hp
      · -- what is left after the step is not nothing, so there was more before
        subst hp
        have := left_pos busy
        exact ⟨j, p₀, h, open_of_left (by omega)⟩
      · exact ⟨i, p, hp, isOpen⟩

theorem once_tells : Once Phase.isOpen Moment.tells where
  keeps all hs now := all.somebody_open hs now
  spent {e e' a} one hs := by
    unfold Moment.tells
    rcases tells_of_step hs with same | ⟨i, s, p, event, p', rfl, h, tells, told, moved⟩
    · rw [told_of_silent hs same]
      exact .inl rfl
    · rw [told_of_published hs told]
      cases tells with
      | detected => exact .inl rfl
      | @completed b r current time =>
        refine .inr ⟨rfl, ⟨i, _, h, rfl⟩, one.nobody (fun _ => inSlot_of_open) h rfl ?_ moved⟩
        cases current <;> rfl
      | failed =>
        exact .inr ⟨rfl, ⟨i, _, h, rfl⟩, one.nobody (fun _ => inSlot_of_open) h rfl rfl moved⟩

/-! ## 5. What stays in the queue -/

/-- Whether a task was neither taken nor replaced nor dropped in moments. -/
def isKept (moments : List Moment) (t : Task) : Bool :=
  decide (t ∉ takenIn moments ∧ t ∉ replacedIn moments ∧ t ∉ droppedIn moments)

theorem isKept_cons (m : Moment) (moments : List Moment) (t : Task) :
    isKept (m :: moments) t = (isKept [m] t && isKept moments t) := by
  have taken := takenIn_append [m] moments
  have replaced := replacedIn_append [m] moments
  have dropped := droppedIn_append [m] moments
  rw [List.singleton_append] at taken replaced dropped
  rw [Bool.eq_iff_iff]
  simp only [isKept, taken, replaced, dropped, Bool.and_eq_true, decide_eq_true_eq,
    List.mem_append, not_or]
  tauto

theorem sublist_insert (t : Task) (tasks : List Task) :
    tasks.Sublist (TaskQueue.insert t tasks) := by
  unfold TaskQueue.insert
  split
  · exact List.sublist_cons_self t tasks
  · exact List.sublist_append_left tasks [t]

/-- Where what is found first is not to be kept, taking it out leaves what is. -/
theorem filter_sublist_eraseP {α : Type} {p keep : α → Bool} {l : List α}
    (found : ∀ x, l.find? p = some x → keep x = false) : (l.filter keep).Sublist (l.eraseP p) := by
  induction l with
  | nil => exact List.nil_sublist _
  | cons y l ih =>
    cases first : p y with
    | true =>
      have gone : keep y = false := found y (by simp [first])
      rw [List.filter_cons_of_neg (by simp [gone]), List.eraseP_cons_of_pos first]
      exact List.filter_sublist
    | false =>
      have rest := ih fun x hx => found x (by simpa [first] using hx)
      rw [List.eraseP_cons_of_neg (by simp [first]), List.filter_cons]
      split
      · exact rest.cons_cons y
      · exact rest.cons y

/-- **One step** leaves in the queue what it does not take out, in its order. -/
theorem kept_step (hs : e.step? a = some e') :
    (e.queue.tasks.filter (isKept [⟨e, a⟩])).Sublist e'.queue.tasks := by
  cases effect_of_step hs with
  | aside _ _ same =>
    rw [same.queue]
    exact List.filter_sublist
  | @take i t ts h head =>
    have taken : (Moment.mk e (.worker i .take)).taken? = some (i, t) := by
      simp [Moment.taken?, head]
    have gone : isKept [⟨e, .worker i .take⟩] t = false := by simp [isKept, takenIn, taken]
    rw [head, List.filter_cons_of_neg (by simp [gone])]
    exact List.filter_sublist
  | @request path priority kind =>
    refine (filter_sublist_eraseP fun t found => ?_).trans (sublist_insert _ _)
    simp [isKept, replacedIn, Moment.replaced?, TaskQueue.find?, found]
  | @requestBreaksOff path priority kind =>
    refine filter_sublist_eraseP fun t found => ?_
    simp [isKept, replacedIn, Moment.replaced?, TaskQueue.find?, found]
  | clear =>
    have nothing : e.queue.tasks.filter (isKept [⟨e, .clear⟩]) = [] :=
      List.filter_eq_nil_iff.mpr fun t there => by
        simp [isKept, droppedIn, Moment.dropped, there]
    rw [nothing]
    exact List.nil_sublist _
  | takeNothing | loadBegins | loadAnswered | loadCached | loadNotCached | content | unreadable
  | outOfTime | announce | cached | notCached | advise | close | saved | notSaved | emptied
  | notEmptied | report | breakdown | analysed | notAnalysed | jobLost => exact List.filter_sublist

/-- **What nobody takes, replaces or drops stays in the queue in its order.** -/
theorem Run.keepsOrder (run : Run e₀ later e) :
    (e₀.queue.tasks.filter (isKept later)).Sublist e.queue.tasks := by
  induction run with
  | start => exact List.filter_sublist
  | @step later e e' a _ hs ih =>
    have both : isKept (⟨e, a⟩ :: later) = fun t => isKept [⟨e, a⟩] t && isKept later t :=
      funext (isKept_cons _ _)
    rw [both, ← List.filter_filter]
    exact (ih.filter _).trans (kept_step hs)

/-! ## 6. The discipline -/

/-- **What is left to happen after a stop**, till the next start: one task is taken and one end is
    told of at most, by whichever workers, and the tasks that are not taken, replaced or dropped
    stay in the queue in their order. -/
structure RunsDown (e₀ : Engine) (later : List Moment) (e : Engine) : Prop where
  taken : (takenIn later).length ≤ 1
  told : ((toldIn later).filter Event.isTerminal).length ≤ 1
  kept : (e₀.queue.tasks.filter fun t =>
    decide (t ∉ takenIn later ∧ t ∉ replacedIn later ∧ t ∉ droppedIn later)).Sublist e.queue.tasks

/-- **The discipline of starting and stopping.** -/
structure Discipline (past : List Moment) (e : Engine) : Prop where
  /-- One worker is in the slot at most. -/
  slot : ∀ i j p q, e.At i p → e.At j q → p.inSlot = true → q.inSlot = true → i = j
  /-- Only the worker started last may not have been told to stop. -/
  last : ∀ i, e.tokens[i]? = some false → i + 1 = e.workers.length
  /-- The engine is running exactly if there is such a worker. -/
  running : e.isRunning = true ↔ ∃ i, i + 1 = e.workers.length ∧ e.tokens[i]? = some false
  stopped : ∀ later m before, past = later ++ m :: before → m.stopsEngine = true →
    (∀ n ∈ later, n.action.isStart = false) → RunsDown m.after later e

section Runs

variable {settings : Settings} {store : InsightStore} {isAdvised : Bool} {bus : EventBus}

/-- **The discipline of starting and stopping** holds in every run. -/
theorem Run.discipline (run : Run (built settings store isAdvised bus) past e) :
    Discipline past e where
  slot := run.oneInSlot
  last i kept := by
    rw [← length_tokens]
    exact run.succession.last_of_kept kept
  running := run.succession.isRunning_iff
  stopped later m before split stops noStart := by
    subst split
    obtain ⟨e₁, first, hs, rest⟩ := run.cut
    have after : m.after = e₁ := after_of_step hs
    have all : e₁.AllTold := first.succession.allTold hs stops
    have one : e₁.OneInSlot := (first.step hs).oneInSlot
    rw [after]
    refine ⟨?_, ?_, rest.keepsOrder⟩
    · rw [length_takenIn]
      exact rest.spent_le_one once_takes all one noStart
    · rw [length_toldIn]
      exact rest.spent_le_one once_tells all one noStart

/-- Two tasks are asked for, and a worker has just seen that it may take one when the engine is
    stopped; another worker is started and told to stop, and then each of them does what it still
    does. -/
def stoppedTwice : List Action :=
  [.request "a.ts" .medium .full, .request "b.ts" .medium .full, .start, .worker 0 .enterSlot,
    .worker 0 .look, .stop, .start, .stop, .worker 0 .take,
    .worker 0 (.endReading (.fault .missing)), .worker 0 .refuse, .worker 0 .report,
    .worker 0 .finish, .worker 0 .heedStop, .worker 0 .leave, .worker 1 .enterSlot,
    .worker 1 .look, .worker 1 .leave]

theorem discipline_stoppedTwice :
    ∃ past e, Run (built default (.memory .empty) false {}) past e ∧
      (past[10]?.map (·.stopsEngine) = some true ∧
        (past.take 10).all (fun m => !m.action.isStart) = true ∧
          (takenIn (past.take 10)).map (·.path) = ["a.ts"] ∧
            e.queue.tasks.map (·.path) = ["b.ts"]) ∧ Discipline past e := by
  obtain ⟨⟨past, e⟩, ht, seen⟩ := Option.map_eq_some_iff.mp (show
    (trace? stoppedTwice ([], built default (.memory .empty) false {})).map (fun r =>
      (r.1[10]?.map (·.stopsEngine), (r.1.take 10).all (fun m => !m.action.isStart),
        (takenIn (r.1.take 10)).map (·.path), r.2.queue.tasks.map (·.path))) =
      some (some true, true, ["a.ts"], ["b.ts"]) by decide)
  have run := Run.start.of_trace? ht
  exact ⟨past, e, run, by simpa only [Prod.mk.injEq] using seen, run.discipline⟩

end Runs

end Engine

end CodeInsight
