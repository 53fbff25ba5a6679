import CodeInsight.Proofs.Engine.Course
import CodeInsight.Proofs.Engine.Entries

/-!
# Clearing is a barrier

* `Current` is the invariant: whoever is in the present epoch has come into it since the cache was
  cleared, a worker by taking its task and a call that loads by beginning (`Run.current`);
* whether a result was written decides whether it is saved (`careful_course`);
* **nothing from before a clearing comes into the cache after it** (`Run.barrier`): no entry, no
  task that waited; and a result that came too late is not saved either.
-/

namespace CodeInsight

/-- The moment leaves the store as it is. -/
def Moment.KeepsStore (m : Moment) : Prop := m.after.store = m.engine.store

/-- While a task is worked on the store is kept till its result is saved, and that is done only if
    the worker was not late. -/
def Careful (work : List Moment) : Phase → Prop
  | .reading _ | .analysing _ _ | .announcing _ _ _ =>
    (∀ m ∈ work, m.KeepsStore) ∧ ∀ m ∈ work, m.isLate = false
  | .advising _ _ current | .closing _ _ current =>
    (∀ m ∈ work, m.KeepsStore) ∧ (current = true → ∀ m ∈ work, m.isLate = false)
  | .refusing _ _ | .reporting _ _ => ∀ m ∈ work, m.KeepsStore
  | .saving _ _ => ∀ m ∈ work, m.isLate = false
  | _ => (∀ m ∈ work, m.KeepsStore) ∨ ∀ m ∈ work, m.isLate = false

/-- Where a moment that writes for a path comes from: from a task for the path that was taken, or
    from a call that loads it and began, in one of the moments given. -/
inductive Origin (m : Moment) (path : String) (since : List Moment) : Prop where
  | run (i : Nat) (s : WorkerStep) (t : Task) (move : m.action = .worker i s)
      (worked : m.hand?.map (·.task) = some t) (about : t.path = path)
      (taken : ∃ m₀ ∈ since, m₀.taken? = some (i, t))
  | load (k : Nat) (returns : m.action = .loadReturns k)
      (began : ∃ m₀ ∈ since, m₀.action = .loadBegins path ∧ m₀.engine.loads.length = k)

namespace Engine

/-! ## 1. Epochs -/

/-- Whoever is in the present epoch has come into it since the cache was cleared. -/
structure Current (past : List Moment) (e : Engine) : Prop where
  hand : ∀ i b, e.hand? i = some b → b.epoch ≤ e.epoch ∧
    (b.epoch = e.epoch → ∃ m ∈ sinceClear past, m.taken? = some (i, b.task))
  loads : ∀ k path phase epoch, e.loads[k]? = some ⟨path, phase⟩ → phase.epoch? = some epoch →
    epoch ≤ e.epoch ∧ (epoch = e.epoch →
      ∃ m ∈ sinceClear past, m.action = .loadBegins path ∧ m.engine.loads.length = k)

section Epochs

variable {past : List Moment} {e e' : Engine} {a : Action}

theorem Current.hand_step (c : Current past e) (hs : e.step? a = some e') (i : Nat)
    (b : Assignment) (hb : e'.hand? i = some b) : b.epoch ≤ e'.epoch ∧
      (b.epoch = e'.epoch → ∃ m ∈ sinceClear (⟨e, a⟩ :: past), m.taken? = some (i, b.task)) := by
  rw [epoch_of_step hs]
  rcases (effect_of_step hs).walk.hand_cases hb with before | ⟨rfl, -, same, head⟩
  · obtain ⟨le, since⟩ := c.hand i b before
    cases kept : a.isClear with
    | true =>
      rw [if_pos rfl]
      exact ⟨by omega, fun eq => by omega⟩
    | false =>
      rw [if_neg Bool.false_ne_true, sinceClear_cons kept]
      refine ⟨le, fun eq => ?_⟩
      obtain ⟨m, hm, taken⟩ := since eq
      exact ⟨m, List.mem_cons_of_mem _ hm, taken⟩
  · -- the task is taken just now
    refine ⟨Nat.le_of_eq same, fun _ => ⟨⟨e, .worker i .take⟩, ?_, ?_⟩⟩
    · rw [sinceClear_cons rfl]
      exact List.mem_cons_self
    · simp [Moment.taken?, head]

theorem Current.loads_step (c : Current past e) (hs : e.step? a = some e') (k : Nat)
    (path : String) (phase : LoadPhase) (epoch : Nat) (h : e'.loads[k]? = some ⟨path, phase⟩)
    (hp : phase.epoch? = some epoch) : epoch ≤ e'.epoch ∧ (epoch = e'.epoch →
      ∃ m ∈ sinceClear (⟨e, a⟩ :: past), m.action = .loadBegins path ∧
        m.engine.loads.length = k) := by
  rw [epoch_of_step hs]
  rcases loads_of_step hs h hp with ⟨phase₀, before, hp₀⟩ | ⟨rfl, hk, same⟩
  · obtain ⟨le, since⟩ := c.loads k path phase₀ epoch before hp₀
    cases kept : a.isClear with
    | true =>
      rw [if_pos rfl]
      exact ⟨by omega, fun eq => by omega⟩
    | false =>
      rw [if_neg Bool.false_ne_true, sinceClear_cons kept]
      refine ⟨le, fun eq => ?_⟩
      obtain ⟨m, hm, began⟩ := since eq
      exact ⟨m, List.mem_cons_of_mem _ hm, began⟩
  · -- the call begins just now
    refine ⟨Nat.le_of_eq same, fun _ => ⟨⟨e, .loadBegins path⟩, ?_, rfl, hk.symm⟩⟩
    rw [sinceClear_cons rfl]
    exact List.mem_cons_self

/-- **A moment that writes comes from since the cache was cleared.** -/
theorem Current.origin (c : Current past e) {path : String} {insights : List Insight}
    (written : (Moment.mk e a).wrote? = some (path, insights)) :
    Origin ⟨e, a⟩ path (sinceClear past) := by
  rcases wrote?_cases written with ⟨i, s, b, rfl, hand, about, current⟩ | ⟨k, rfl, answered⟩
  · have worked : (Moment.mk e (.worker i s)).hand? = some b := hand
    exact .run i s b.task rfl (by rw [worked]; rfl) about ((c.hand i b hand).2 current.symm)
  · exact .load k rfl ((c.loads k _ _ e.epoch answered rfl).2 rfl)

end Epochs

/-! ## 2. Saving -/

section Saving

variable {work : List Moment} {e e' : Engine} {a : Action}

/-- In every phase a late result and a changed store exclude each other. -/
theorem careful_cases {p : Phase} (h : Careful work p) :
    (∀ m ∈ work, m.KeepsStore) ∨ ∀ m ∈ work, m.isLate = false := by
  cases p with
  | reading | analysing | announcing | advising | closing => exact .inl h.1
  | refusing | reporting => exact .inl h
  | saving => exact .inr h
  | _ => exact h

/-- **A step on a task goes on being careful.** -/
theorem careful_step {b : Assignment} (hs : e.step? a = some e')
    (worked : (Moment.mk e a).hand? = some b)
    (so : ∀ i p, e.At i p → p.assignment? = some b → Careful work p) :
    ∃ i p, e.hand? i = some b ∧ e'.phases = e.phases.set i p ∧
      Careful (⟨e, a⟩ :: work) p := by
  have keeps (same : e'.store = e.store) (kept : ∀ m ∈ work, m.KeepsStore) :
      ∀ m ∈ (⟨e, a⟩ :: work : List Moment), m.KeepsStore := by
    refine List.forall_mem_cons.mpr ⟨?_, kept⟩
    rw [Moment.KeepsStore, after_of_step hs, same]
  have inTime (early : (Moment.mk e a).isLate = false) (before : ∀ m ∈ work, m.isLate = false) :
      ∀ m ∈ (⟨e, a⟩ :: work : List Moment), m.isLate = false :=
    List.forall_mem_cons.mpr ⟨early, before⟩
  have goOn := @goes_on e e' a (fun _ p => Careful work p)
    (fun _ p => Careful (⟨e, a⟩ :: work) p) b worked so
  cases effect_of_step hs with
  | aside _ idle _ _ => rw [idle] at worked; cases worked
  | takeNothing h _ => rw [worked_of_at h] at worked; cases worked
  | take h _ => rw [worked_of_at h] at worked; cases worked
  | jobLost nobody => simp [Moment.hand?, nobody] at worked
  | request | requestBreaksOff | clear | loadBegins | loadAnswered | loadCached | loadNotCached =>
    cases worked
  | content h =>
    refine goOn h rfl (worked_of_at h) (phases_move _ _ _) ?_
    rintro ⟨kept, early⟩
    exact ⟨keeps rfl kept, inTime rfl early⟩
  | unreadable h _ =>
    refine goOn h rfl (worked_of_at h) (phases_move _ _ _) ?_
    rintro ⟨kept, -⟩
    exact keeps rfl kept
  | outOfTime h hp _ =>
    rcases hp with rfl | ⟨job, rfl⟩
    · refine goOn h rfl (worked_of_at h) (phases_move _ _ _) ?_
      rintro ⟨kept, -⟩
      exact keeps rfl kept
    · refine goOn h rfl (worked_of_at h) (phases_move _ _ _) ?_
      rintro ⟨kept, -⟩
      exact keeps rfl kept
  | announce h _ =>
    refine goOn h rfl (worked_of_at h) (phases_move _ _ _) ?_
    rintro ⟨kept, early⟩
    exact ⟨keeps rfl kept, inTime rfl early⟩
  | @cached i c r h current =>
    have early' : (Moment.mk e (.worker i .cache)).isLate = false := by
      have hand : (Moment.mk e (.worker i .cache)).hand? = some c := worked_of_at h
      simp [Moment.isLate, hand, current]
    refine goOn h rfl (worked_of_at h) (phases_move _ _ _) ?_
    rintro ⟨kept, early⟩
    exact ⟨keeps rfl kept, fun _ => inTime early' early⟩
  | notCached h _ =>
    refine goOn h rfl (worked_of_at h) (phases_move _ _ _) ?_
    rintro ⟨kept, -⟩
    exact ⟨keeps rfl kept, fun current => absurd current Bool.false_ne_true⟩
  | advise h _ =>
    refine goOn h rfl (worked_of_at h) (phases_move _ _ _) ?_
    rintro ⟨kept, early⟩
    exact ⟨keeps rfl kept, fun current => inTime rfl (early current)⟩
  | @close i c r current _ _ h _ =>
    cases current with
    | true =>
      refine goOn h rfl (worked_of_at h) (phases_move _ _ _) ?_
      rintro ⟨-, early⟩
      exact inTime rfl (early rfl)
    | false =>
      refine goOn h rfl (worked_of_at h) (phases_move _ _ _) ?_
      rintro ⟨kept, -⟩
      exact .inl (keeps rfl kept)
  | saved h _ =>
    exact goOn h rfl (worked_of_at h) (phases_move _ _ _) fun early =>
      .inr (inTime rfl early)
  | notSaved h _ _ =>
    exact goOn h rfl (worked_of_at h) (phases_move _ _ _) fun early =>
      .inr (inTime rfl early)
  | emptied h _ =>
    exact goOn h rfl (worked_of_at h) (phases_move _ _ _) fun kept =>
      keeps rfl kept
  | notEmptied h _ =>
    exact goOn h rfl (worked_of_at h) (phases_move _ _ _) fun kept =>
      keeps rfl kept
  | report h _ =>
    exact goOn h rfl (worked_of_at h) (phases_move _ _ _) fun kept =>
      .inl (keeps rfl kept)
  | @breakdown i s p _ h _ unsound _ =>
    have early' : (Moment.mk e (.worker i s)).isLate = false := by
      cases s <;> first | rfl | cases unsound
    have hp := (worked_of_at h).symm.trans worked
    exact goOn h hp worked (phases_move _ _ _) fun careful =>
      (careful_cases careful).imp (keeps rfl) (inTime early')
  | analysed _ _ waits =>
    refine goOn (at_of_waiter? waits) rfl (by simp [Moment.hand?, waits]) (phases_move _ _ _) ?_
    rintro ⟨kept, early⟩
    exact ⟨keeps rfl kept, inTime rfl early⟩
  | notAnalysed waits _ =>
    refine goOn (at_of_waiter? waits) rfl (by simp [Moment.hand?, waits]) (phases_move _ _ _) ?_
    rintro ⟨kept, -⟩
    exact keeps rfl kept

end Saving

/-! ## 3. Runs -/

section Run

variable {settings : Settings} {store : InsightStore} {isAdvised : Bool} {bus : EventBus}
variable {past : List Moment} {e : Engine}

theorem Run.current (h : Run (built settings store isAdvised bus) past e) : Current past e := by
  induction h with
  | start =>
    refine ⟨fun _ _ hb => ?_, fun _ _ _ _ hk => ?_⟩
    · cases hb
    · cases hk
  | step _ hs ih => exact ⟨ih.hand_step hs, ih.loads_step hs⟩

theorem careful_course : Course settings store isAdvised bus fun _ _ p work =>
    Careful work p where
  fresh _ _ := ⟨List.forall_mem_nil _, List.forall_mem_nil _⟩
  idle _ _ _ q := q
  work _ hs worked so := careful_step hs worked so

/-- No task of which the store was changed had a late result. -/
theorem Run.careful (h : Run (built settings store isAdvised bus) past e) {t : Task}
    (taken : t ∈ takenIn past) : (∀ m ∈ workOn past t, m.KeepsStore) ∨
      ∀ m ∈ workOn past t, m.isLate = false := by
  rcases h.inHand_or_ended taken with held | ended
  · obtain ⟨i, p, b, hp, hb, rfl⟩ := exists_at_of_mem_inHand held
    exact careful_cases (careful_course.hand h hp hb)
  · obtain ⟨e₁, b, p, rfl, -, -, careful⟩ := careful_course.ended h ended
    exact careful_cases careful

/-- No task that was asked for before a clearing is taken after it. -/
theorem Run.untaken (h : Run (built settings store isAdvised bus) past e) {m : Moment}
    {later before : List Moment} (hpast : past = later ++ m :: before) (ha : m.action = .clear)
    {t : Task} (asked : t ∈ askedIn before) : t ∉ takenIn later := by
  subst hpast
  obtain ⟨e₁, run, hs, -⟩ := h.cut
  obtain ⟨e₀, a⟩ := m
  have ha : a = .clear := ha
  subst ha
  -- when the clearing is over nothing waits, so the task is entered as gone already
  have emptied := (run.step hs).asked_account t
  cases hs
  have emptied : (askedIn (⟨e₀, .clear⟩ :: before)).count t =
      0 + (replacedIn (⟨e₀, .clear⟩ :: before)).count t +
        (droppedIn (⟨e₀, .clear⟩ :: before)).count t +
          (takenIn (⟨e₀, .clear⟩ :: before)).count t := emptied
  have known : 0 < (askedIn (⟨e₀, .clear⟩ :: before)).count t :=
    List.count_pos_iff.mpr (by simpa [askedIn] using Or.inr asked)
  have whole := h.asked_account t
  have once := List.nodup_iff_count.mp h.askedIn_nodup t
  rw [replacedIn_append, droppedIn_append, takenIn_append, List.count_append, List.count_append,
    List.count_append] at whole
  intro taken
  have := List.count_pos_iff.mpr taken
  omega

/-- **What a clearing keeps out.** -/
structure Barrier (past : List Moment) (e : Engine) : Prop where
  /-- An entry was written last by a run whose task was taken since the cache was cleared, or by a
      call that has begun to load since then. -/
  entries : ∀ path insights, e.cache.get? path = some insights → ∃ later m before,
    sinceClear past = later ++ m :: before ∧ m.wrote? = some (path, insights) ∧
      (∀ m' ∈ later, m'.wroteFor? path = none) ∧ Origin m path before
  /-- No task that was asked for before a clearing is taken after it. -/
  untaken : ∀ later m before, past = later ++ m :: before → m.action = .clear →
    ∀ t ∈ askedIn before, t ∉ takenIn later
  /-- While a task is worked on whose result comes too late, the store is kept as it is. -/
  unsaved : ∀ m ∈ past, m.isLate = true → ∀ t, m.hand?.map (·.task) = some t →
    ∀ m' ∈ workOn past t, m'.after.store = m'.engine.store

/-- **Clearing is a barrier**, whatever was asked for, loaded, started, stopped and cleared in
    whatever order. -/
theorem Run.barrier (h : Run (built settings store isAdvised bus) past e) : Barrier past e where
  entries := by
    intro path insights there
    rw [h.entry_eq path] at there
    obtain ⟨later, m, before, since, written, last⟩ := List.findSome?_eq_some_iff.mp there
    obtain ⟨early, hpast, same⟩ := of_sinceClear_eq since
    subst hpast
    obtain ⟨e₁, run, -, -⟩ := h.cut
    have wrote := wrote?_of_wroteFor? written
    exact ⟨later, m, before, since, wrote, last, by rw [← same]; exact run.current.origin wrote⟩
  untaken _ _ _ hpast ha _ asked := h.untaken hpast ha asked
  unsaved := by
    intro m hm late t worked m' hm'
    obtain ⟨b, hb, rfl⟩ := Option.map_eq_some_iff.mp worked
    rcases h.careful (h.mem_takenIn_of_worked m hm b hb) with kept | early
    · exact kept m' hm'
    · have mine : m ∈ workOn past b.task :=
        List.mem_filter.mpr ⟨hm, decide_eq_true worked⟩
      rw [early m mine] at late
      cases late

end Run

/-- The cache is cleared while a file is analysed and another one waits; then the first is asked for
    and analysed again. -/
def clearedMeanwhile : List Action :=
  [.request "a.ts" .medium .full, .start, .worker 0 .enterSlot, .worker 0 .look, .worker 0 .take,
   .worker 0 (.endReading (.content "")), .request "b.ts" .low .full, .clear,
   .endJob 0 (.outline ⟨"a.ts", none, [], []⟩), .worker 0 .cache, .worker 0 (.advise none),
   .worker 0 .close, .worker 0 .finish, .request "a.ts" .medium .full, .worker 0 .restOver,
   .worker 0 .look, .worker 0 .take, .worker 0 (.endReading (.content "")),
   .endJob 1 (.outline ⟨"a.ts", none, [], []⟩), .worker 0 .cache]

/-- The first result comes too late, the task that waited is dropped, and the entry is what the
    second analysis wrote. -/
theorem barrier_clearedMeanwhile :
    let second : Instant := ⟨0, 1000, by decide, by decide⟩
    let third : Instant := ⟨0, 2000, by decide, by decide⟩
    ∃ past e, Run (built default (.memory .empty) false {}) past e ∧
      past.map (·.action) = clearedMeanwhile.reverse ∧
      takenIn past = [Task.of "a.ts" .medium .full third, Task.of "a.ts" .medium .full .epoch] ∧
      droppedIn past = [Task.of "b.ts" .low .full second] ∧
      (past[10]?.map Moment.isLate) = some true ∧ e.cache.get? "a.ts" = some [] ∧
      Barrier past e := by
  intro second third
  obtain ⟨⟨past, e⟩, ht, facts⟩ := Option.map_eq_some_iff.mp (show
    (trace? clearedMeanwhile ([], built default (.memory .empty) false {})).map (fun r =>
      (takenIn r.1, droppedIn r.1, r.1[10]?.map Moment.isLate, r.2.cache.get? "a.ts")) =
        some ([Task.of "a.ts" .medium .full third, Task.of "a.ts" .medium .full .epoch],
          [Task.of "b.ts" .low .full second], some true, some []) by decide)
  simp only [Prod.mk.injEq] at facts
  obtain ⟨taken, dropped, late, entry⟩ := facts
  have run := Run.start.of_trace? ht
  exact ⟨past, e, run, by rw [actions_of_trace? ht]; rfl, taken, dropped, late, entry, run.barrier⟩

end Engine

end CodeInsight
