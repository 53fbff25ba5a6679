import CodeInsight.Proofs.Engine.Barrier
import CodeInsight.Proofs.Engine.LoadOrder
import CodeInsight.Proofs.Engine.Telling
import CodeInsight.Proofs.Store.Kept

/-!
# The cache shows the latest analysis

* as long as nothing is loaded, only the worker with a task writes into the cache: if the cache was
  cleared since the task was taken it is empty, and else it has for the path what the worker has
  written (`Settled`, `Run.settled`);
* the end of a task is told of with the insights that were written, and all that is done with the
  task after that is to save them (`ending_of_told`, `ends_course`);
* so **from the end of a task on the cache shows what was told**, or nothing if it was cleared
  meanwhile, till it is written or cleared again; and what was saved is what was told
  (`Run.shows_latest`).
-/

namespace CodeInsight

/-- The insights that an event carries; a failure has none. -/
def Event.insights : Event → List Insight
  | completed _ insights _ => insights
  | _ => []

/-- What a worker has put into the cache for the task in its hand, unless it was too late. -/
def Phase.written? : Phase → Option (List Insight)
  | advising _ r _ | closing _ r _ => some r.insights
  | saving _ insights => some insights
  | reporting _ _ => some []
  | _ => none

/-- Whether an action begins to load. -/
def Action.isLoad : Action → Bool
  | loadBegins _ => true
  | _ => false

/-- The cache was cleared after a task was taken. -/
def ClearedSince (past : List Moment) (t : Task) : Prop :=
  ∃ newer c older, past = newer ++ c :: older ∧ c.action.isClear = true ∧ t ∈ takenIn older

namespace Engine

/-- The cache shows what an event tells: its insights, under an entry of their own. -/
def Shows (e : Engine) (event : Event) : Prop :=
  e.insights event.path = event.insights ∧ e.cache.contains event.path = true

/-! ## 1. Where nothing is loaded -/

section Step

variable {e e' : Engine} {a : Action}

/-- The worker with a task is one, and a step that moves it moves it to one phase. -/
theorem OneInSlot.moved_unique (one : e.OneInSlot) {i j : Nat} {p q p' q' : Phase}
    {b : Assignment} (hp : e.At i p) (hb : p.assignment? = some b) (hq : e.At j q)
    (hc : q.assignment? = some b) (moved : e'.phases = e.phases.set i p')
    (moved' : e'.phases = e.phases.set j q') : i = j ∧ p' = q' := by
  obtain rfl := one.hand_unique ((hand?_of_at hp).trans hb) ((hand?_of_at hq).trans hc)
  have here : e'.At i p' := (at_of_move moved hp).mpr (by rw [if_pos rfl])
  have here' : e'.At i q' := (at_of_move moved' hq).mpr (by rw [if_pos rfl])
  exact ⟨rfl, here.unique here'⟩

theorem loads_of_unloaded (hs : e.step? a = some e') (none' : e.loads = [])
    (unloaded : a.isLoad = false) : e'.loads = [] := by
  cases effect_of_step hs with
  | aside _ _ same _ => rw [same.loads, none']
  | loadBegins => cases unloaded
  | loadAnswered h | loadCached h | loadNotCached h =>
    rw [none'] at h
    cases h
  | _ => exact none'

/-- Where nothing is loaded, who writes works on a task. -/
theorem wrote?_of_idle (none' : e.loads = []) (idle : (Moment.mk e a).hand? = none) :
    (Moment.mk e a).wrote? = none := by
  cases written : (Moment.mk e a).wrote? with
  | none => rfl
  | some w =>
    rcases wrote?_cases written with ⟨i, s, b, rfl, hand, -, -⟩ | ⟨k, -, answered⟩
    · exact absurd (hand.symm.trans idle) nofun
    · rw [none'] at answered
      cases answered

/-! ## 2. The cache while a task is in hand -/

/-- What the cache is like while a worker has an assignment in hand and is in a phase. -/
structure Settled (e : Engine) (b : Assignment) (p : Phase) : Prop where
  cleared : b.epoch ≠ e.epoch → e.cache = Table.empty
  current : b.epoch = e.epoch → ∀ insights, p.written? = some insights →
    e.cache.get? b.path = some insights

/-- Where cache and epoch stay, a worker may go on without writing. -/
theorem Settled.goOn {b : Assignment} {p₀ p : Phase} (h : Settled e b p₀)
    (cache : e'.cache = e.cache) (epoch : e'.epoch = e.epoch)
    (written : p.written? = none ∨ p.written? = p₀.written?) : Settled e' b p where
  cleared late := by
    rw [epoch] at late
    rw [cache]
    exact h.cleared late
  current same insights hp := by
    rw [epoch] at same
    rw [cache]
    rcases written with none' | same'
    · rw [none'] at hp
      cases hp
    · exact h.current same insights (same'.symm.trans hp)

/-- **A step on a task settles the cache for the next phase.** -/
theorem settled_step {b : Assignment} (hs : e.step? a = some e')
    (worked : (Moment.mk e a).hand? = some b)
    (so : ∀ i p, e.At i p → p.assignment? = some b → Settled e b p) :
    ∃ i p, e.hand? i = some b ∧ e'.phases = e.phases.set i p ∧ Settled e' b p := by
  have goOn := @goes_on e e' a (fun b p => Settled e b p) (fun b p => Settled e' b p) b worked so
  cases effect_of_step hs with
  | aside _ idle _ _ => rw [idle] at worked; cases worked
  | takeNothing h _ => rw [worked_of_at h] at worked; cases worked
  | take h _ => rw [worked_of_at h] at worked; cases worked
  | jobLost nobody => simp [Moment.hand?, nobody] at worked
  | request | requestBreaksOff | clear | loadBegins | loadAnswered | loadCached | loadNotCached =>
    cases worked
  | @cached i c r h current =>
    refine goOn h rfl (worked_of_at h) (phases_move _ _ _) fun _ => ⟨fun late => ?_, ?_⟩
    · exact absurd current.symm late
    · rintro - insights ⟨⟩
      exact Table.get?_set_self _ _ _
  | @notCached i c r h outdated =>
    refine goOn h rfl (worked_of_at h) (phases_move _ _ _) fun before => ⟨before.cleared, ?_⟩
    exact fun same => absurd same.symm outdated
  | @emptied i c fault h current =>
    refine goOn h rfl (worked_of_at h) (phases_move _ _ _) fun _ => ⟨fun late => ?_, ?_⟩
    · exact absurd current.symm late
    · rintro - insights ⟨⟩
      exact Table.get?_set_self _ _ _
  | @notEmptied i c fault h outdated =>
    refine goOn h rfl (worked_of_at h) (phases_move _ _ _) fun before => ⟨before.cleared, ?_⟩
    exact fun same => absurd same.symm outdated
  | content h =>
    exact goOn h rfl (worked_of_at h) (phases_move _ _ _) (·.goOn rfl rfl (.inl rfl))
  | unreadable h _ =>
    exact goOn h rfl (worked_of_at h) (phases_move _ _ _) (·.goOn rfl rfl (.inl rfl))
  | outOfTime h hp _ =>
    rcases hp with rfl | ⟨job, rfl⟩ <;>
      exact goOn h rfl (worked_of_at h) (phases_move _ _ _) (·.goOn rfl rfl (.inl rfl))
  | announce h _ =>
    exact goOn h rfl (worked_of_at h) (phases_move _ _ _) (·.goOn rfl rfl (.inl rfl))
  | advise h _ =>
    exact goOn h rfl (worked_of_at h) (phases_move _ _ _) (·.goOn rfl rfl (.inr rfl))
  | @close i c r current _ _ h _ =>
    cases current with
    | true => exact goOn h rfl (worked_of_at h) (phases_move _ _ _) (·.goOn rfl rfl (.inr rfl))
    | false => exact goOn h rfl (worked_of_at h) (phases_move _ _ _) (·.goOn rfl rfl (.inl rfl))
  | saved h _ =>
    exact goOn h rfl (worked_of_at h) (phases_move _ _ _) (·.goOn rfl rfl (.inl rfl))
  | notSaved h _ _ =>
    exact goOn h rfl (worked_of_at h) (phases_move _ _ _) (·.goOn rfl rfl (.inl rfl))
  | report h _ =>
    exact goOn h rfl (worked_of_at h) (phases_move _ _ _) (·.goOn rfl rfl (.inl rfl))
  | @breakdown i s p _ h _ _ _ =>
    exact goOn h ((worked_of_at h).symm.trans worked) worked (phases_move _ _ _)
      (·.goOn rfl rfl (.inl rfl))
  | analysed _ _ waits =>
    exact goOn (at_of_waiter? waits) rfl (by simp [Moment.hand?, waits]) (phases_move _ _ _)
      (·.goOn rfl rfl (.inl rfl))
  | notAnalysed waits _ =>
    exact goOn (at_of_waiter? waits) rfl (by simp [Moment.hand?, waits]) (phases_move _ _ _)
      (·.goOn rfl rfl (.inl rfl))

end Step

section Run

variable {settings : Settings} {store : InsightStore} {isAdvised : Bool} {bus : EventBus}
variable {past : List Moment} {e e' : Engine} {a : Action}

theorem Run.loads_eq_nil (h : Run (built settings store isAdvised bus) past e)
    (unloaded : ∀ m ∈ past, m.action.isLoad = false) : e.loads = [] := by
  induction h with
  | start => rfl
  | step _ hs ih =>
    obtain ⟨last, before⟩ := List.forall_mem_cons.mp unloaded
    exact loads_of_unloaded hs (ih before) last

/-- **The cache is settled for every task in hand**, as long as nothing was loaded. -/
theorem Run.settled (h : Run (built settings store isAdvised bus) past e)
    (unloaded : ∀ m ∈ past, m.action.isLoad = false) {i : Nat} {p : Phase} {b : Assignment}
    (hp : e.At i p) (hb : p.assignment? = some b) : Settled e b p := by
  induction h generalizing i p b with
  | start => cases hp
  | @step past e e' a h hs ih =>
    obtain ⟨-, before⟩ := List.forall_mem_cons.mp unloaded
    have ih {i p b} (hp : e.At i p) (hb : p.assignment? = some b) : Settled e b p :=
      ih before hp hb
    have walk := (effect_of_step hs).walk
    have cache := cache_of_step hs
    have epoch := epoch_of_step hs
    cases worked : (Moment.mk e a).hand? with
    | none =>
      rw [wrote?_of_idle (h.loads_eq_nil before) worked] at cache
      have hand : e'.hand? i = some b := (hand?_of_at hp).trans hb
      rcases walk.at_cases hp hb with there | ⟨taken, rfl⟩ | works
      · cases kept : a.isClear with
        | false =>
          rw [kept] at cache epoch
          exact (ih there hb).goOn cache epoch (.inr rfl)
        | true =>
          -- whoever has a task in hand now has it from an older epoch
          rw [kept] at cache epoch
          have old := (h.current.hand i b ((hand?_of_at there).trans hb)).1
          refine ⟨fun _ => cache, fun same => ?_⟩
          rw [if_pos rfl] at epoch
          omega
      · -- a task that was just taken is of the present epoch
        obtain ⟨rfl, taking, -, moved⟩ := walk.of_taken taken
        refine ⟨fun late => ?_, fun _ _ => nofun⟩
        rw [hand?_of_move moved taking, if_pos rfl] at hand
        have same : e.epoch = b.epoch := congrArg Assignment.epoch (Option.some.inj hand)
        exact absurd (same.symm.trans epoch.symm) late
      · exact absurd worked works
    | some d =>
      obtain ⟨j, q, hd, moved, settled⟩ := settled_step hs worked fun i p hp hd => ih hp hd
      obtain ⟨p₀, hp₀, hd₀⟩ := at_of_hand? hd
      obtain ⟨k, p₁, q₁, hp₁, hd₁, moved', -, hand⟩ := walk.of_worked worked
      obtain ⟨rfl, rfl⟩ := h.oneInSlot.moved_unique hp₀ hd₀ hp₁ hd₁ moved moved'
      rw [at_of_move moved hp₀] at hp
      split at hp
      case isFalse other =>
        exact absurd (h.oneInSlot.hand_unique ((hand?_of_at hp).trans hb) hd) other
      case isTrue =>
        subst hp
        rcases hand with same | ⟨gone, -⟩
        · cases same.symm.trans hb
          exact settled
        · rw [gone] at hb
          cases hb

/-- **A task is of an older epoch if the cache was cleared since it was taken**, and only then. -/
theorem Run.epoch_ne_iff (h : Run (built settings store isAdvised bus) past e) {i : Nat}
    {b : Assignment} (hb : e.hand? i = some b) : b.epoch ≠ e.epoch ↔ ClearedSince past b.task := by
  constructor
  · intro late
    induction h with
    | start => cases hb
    | @step past e e' a h hs ih =>
      rw [epoch_of_step hs] at late
      rcases (effect_of_step hs).walk.hand_cases hb with before | ⟨rfl, -, same, -⟩
      · cases kept : a.isClear with
        | true => exact ⟨[], ⟨e, a⟩, past, rfl, kept, h.mem_takenIn_of_hand before⟩
        | false =>
          rw [kept] at late
          obtain ⟨newer, c, older, rfl, clear, taken⟩ := ih before late
          exact ⟨⟨e, a⟩ :: newer, c, older, rfl, clear, taken⟩
      · exact absurd same late
  · rintro ⟨newer, c, older, rfl, clear, taken⟩ current
    obtain ⟨m, hm, again⟩ := (h.current.hand i b hb).2 current
    have since : m ∈ newer := by
      have cut : ∀ newer : List Moment, m ∈ sinceClear (newer ++ c :: older) → m ∈ newer := by
        intro newer
        induction newer with
        | nil =>
          intro hm
          rw [List.nil_append, sinceClear_cons_of_isClear clear] at hm
          cases hm
        | cons n newer ih =>
          intro hm
          cases hn : n.action.isClear with
          | true =>
            rw [List.cons_append, sinceClear_cons_of_isClear hn] at hm
            cases hm
          | false =>
            rw [List.cons_append, sinceClear_cons hn] at hm
            rcases List.mem_cons.mp hm with rfl | hm
            · exact List.mem_cons_self
            · exact List.mem_cons_of_mem _ (ih hm)
      exact cut newer hm
    have twice : b.task ∈ takenIn newer :=
      List.mem_filterMap.mpr ⟨m, since, by rw [again]; rfl⟩
    have once := h.takenIn_nodup
    rw [takenIn_append, takenIn_cons] at once
    exact (List.nodup_append.mp once).2.2 b.task twice b.task
      (List.mem_append_right _ taken) rfl

/-- What the cache has for a path stays till it is written for the path, unless it is cleared. -/
theorem Run.entry_kept {e₁ : Engine} {later : List Moment} {path : String} (h : Run e₁ later e)
    (silent : ∀ m ∈ later, m.wroteFor? path = none) :
    e.cache.get? path = none ∧ (∃ m ∈ later, m.action.isClear = true) ∨
      e.cache.get? path = e₁.cache.get? path := by
  induction h with
  | start => exact .inr rfl
  | @step later e e' a h hs ih =>
    obtain ⟨own, before⟩ := List.forall_mem_cons.mp silent
    have cache := cache_of_step hs
    have passed : (∃ m ∈ later, m.action.isClear = true) →
        ∃ m ∈ (⟨e, a⟩ :: later : List Moment), m.action.isClear = true :=
      fun ⟨m, hm, clear⟩ => ⟨m, List.mem_cons_of_mem _ hm, clear⟩
    cases written : (Moment.mk e a).wrote? with
    | none =>
      rw [written] at cache
      cases kept : a.isClear with
      | true =>
        rw [kept] at cache
        refine .inl ⟨by rw [cache]; rfl, ⟨e, a⟩, List.mem_cons_self, kept⟩
      | false =>
        rw [kept] at cache
        rw [cache]
        exact (ih before).imp (fun h => ⟨h.1, passed h.2⟩) id
    | some w =>
      rw [written] at cache
      have other : path ≠ w.1 := by
        rintro rfl
        simp [Moment.wroteFor?, written] at own
      rw [cache]
      dsimp only
      rw [Table.get?_set_ne _ _ other]
      exact (ih before).imp (fun h => ⟨h.1, passed h.2⟩) id

/-! ## 3. The end of a task -/

/-- **The end of a task is told of by the worker that has it**, with what it has written; telling
    writes nothing, and all that may be done after that is to save what was told. -/
theorem ending_of_told (hs : e.step? a = some e') {event : Event}
    (told : event ∈ (Moment.mk e a).told) (terminal : event.isTerminal = true) :
    ∃ i p b p', e.At i p ∧ p.assignment? = some b ∧ (Moment.mk e a).hand? = some b ∧
      event.path = b.path ∧ p.written? = some event.insights ∧ e'.cache = e.cache ∧
        e'.phases = e.phases.set i p' ∧
          (p'.assignment? ≠ none → p' = .saving b event.insights) := by
  rcases tells_of_step hs with same | ⟨i, s, p, event', p', rfl, at', tells, more, moved⟩
  · rw [told_of_silent hs same] at told
    cases told
  · rw [told_of_published hs more] at told
    obtain rfl := List.mem_singleton.mp told
    have cache := cache_of_step hs
    cases tells with
    | detected => cases terminal
    | @completed b r current time =>
      refine ⟨i, _, b, _, at', rfl, worked_of_at at', rfl, rfl, cache, moved, fun busy => ?_⟩
      cases current with
      | true => rfl
      | false => exact absurd rfl busy
    | @failed b fault time =>
      exact ⟨i, _, b, _, at', rfl, worked_of_at at', rfl, rfl, cache, moved,
        fun busy => absurd rfl busy⟩

/-- Once the end of a task was told of, all that is left to do is to save what was told. -/
def OnlySaves (b : Assignment) (work : List Moment) (p : Phase) : Prop :=
  ∀ event ∈ toldIn work, event.isTerminal = true → p.assignment? ≠ none →
    p = .saving b event.insights

theorem ends_course : Course settings store isAdvised bus fun _ b p work => OnlySaves b work p where
  fresh _ _ := fun _ told => absurd told List.not_mem_nil
  idle _ _ _ q := q
  work := by
    intro past e e' a b h hs worked so
    obtain ⟨i, p₀, p, hp₀, hb, moved, nearer, -⟩ := (effect_of_step hs).walk.of_worked worked
    refine ⟨i, p, (hand?_of_at hp₀).trans hb, moved, fun event told terminal busy => ?_⟩
    rw [toldIn_cons] at told
    rcases List.mem_append.mp told with before | now
    · -- a step on a task that is being saved is the last
      have saves := so i p₀ hp₀ hb event before terminal (by simp [hb])
      have one : (Phase.saving b event.insights).left = 1 := rfl
      have := left_pos busy
      rw [saves, one] at nearer
      omega
    · obtain ⟨j, q₀, c, q, hq₀, hc, worked', -, -, -, moved', saves⟩ :=
        ending_of_told hs now terminal
      cases worked.symm.trans worked'
      obtain ⟨rfl, rfl⟩ := h.oneInSlot.moved_unique hp₀ hb hq₀ hc moved moved'
      exact saves busy

/-- What is saved for a task is what the saving worker has, and the store has taken it. -/
theorem saving_of_saved {m : Moment} {w : String × List Insight} (saved : m.saved? = some w) :
    ∃ i b, m.engine.At i (.saving b w.2) ∧ m.hand? = some b ∧ b.path = w.1 ∧
      (m.engine.store.save w.1 w.2 m.engine.now).1 = .ok () := by
  unfold Moment.saved? at saved
  split at saved
  · rename_i i ha
    split at saved
    · rename_i b insights at'
      have here : m.engine.At i (.saving b insights) := at'
      split at saved
      · rename_i done
        cases saved
        refine ⟨i, b, here, ?_, rfl, done⟩
        unfold Moment.hand?
        rw [ha]
        exact hand?_of_at here
      · cases saved
    · cases saved
  · cases saved

/-- **What is saved for a task is what was told at its end**, and it is what the store has as long
    as nothing is saved for the path, or for one that shares its record. -/
theorem Run.stored_of_told {newer older before : List Moment} {s m : Moment} {b : Assignment}
    {event : Event} {w : String × List Insight}
    (h : Run (built settings store isAdvised bus) (newer ++ s :: (older ++ m :: before)) e)
    (told : event ∈ m.told) (terminal : event.isTerminal = true) (worked : m.hand? = some b)
    (path : event.path = b.path) (own : s.hand?.map (·.task) = some b.task)
    (saved : s.saved? = some w) (fits : ∀ i ∈ event.insights, i.Fits)
    (unshared : ∀ m' ∈ newer, ∀ w', m'.saved? = some w' →
      ¬ m'.engine.store.Shares event.path w'.1) :
    w = (event.path, event.insights) ∧
      e.store.load event.path = (.ok (some event.insights), []) := by
  obtain ⟨e₂, till, save, rest⟩ := h.cut
  obtain ⟨j, c, at', hand, about, done⟩ := saving_of_saved saved
  have mine : c.task = b.task := by simpa [hand] using own
  have before' : event ∈ toldIn (workOn (older ++ m :: before) c.task) := by
    refine List.mem_flatMap.mpr ⟨m, List.mem_reverse.mpr (List.mem_filter.mpr ⟨?_, ?_⟩), told⟩
    · exact List.mem_append_right _ List.mem_cons_self
    · simp [worked, mine]
  have only := ends_course.hand till at' rfl event before' terminal nofun
  have insights : w.2 = event.insights := by
    injection only
  have whole : w = (event.path, event.insights) := by
    rw [← insights, path, Assignment.path, ← mine, ← Assignment.path, about]
  refine ⟨whole, ?_⟩
  subst whole
  have stored := store_of_saved (a := s.action) save saved
  have loaded : e₂.store.load event.path = (.ok (some event.insights), []) :=
    InsightStore.load_of_saved fits (by rw [stored, ← done])
  rcases rest.load_eq event.path with same | ⟨m', hm', q, is, saved', shared, -⟩
  · rw [same, loaded]
  · exact absurd shared (unshared m' hm' _ saved')

/-! ## 4. From the end of a task on -/

theorem shows_of_entry {event : Event} (h : e.cache.get? event.path = some event.insights) :
    e.Shows event := by
  constructor
  · rw [Engine.insights, InsightCache.insights, h]
    rfl
  · rw [Table.contains, h]
    rfl

/-- **What holds from the moment on in which the end of a task is told of.** -/
structure LatestShown (later : List Moment) (m : Moment) (before : List Moment) (e : Engine)
    (t : Task) (event : Event) : Prop where
  /-- If the cache was not cleared since the task was taken, it shows what is told, when it is told
      and as long as nothing is written for the path and the cache is not cleared. -/
  shown : ¬ ClearedSince before t → m.engine.Shows event ∧
    ((∀ m' ∈ later, m'.wroteFor? event.path = none) →
      (∀ m' ∈ later, m'.action.isClear = false) → e.Shows event)
  /-- If it was, the path has no entry, and gets none till something is written for it. -/
  absent : ClearedSince before t → m.engine.cache.contains event.path = false ∧
    ((∀ m' ∈ later, m'.wroteFor? event.path = none) → e.cache.contains event.path = false)
  /-- If the result is saved, what was told is saved, and it is what the store has as long as
      nothing is saved for the path, or for one that shares its record. -/
  stored : ∀ newer s older w, later = newer ++ s :: older → s.hand?.map (·.task) = some t →
    s.saved? = some w → (∀ i ∈ event.insights, i.Fits) →
      (∀ m' ∈ newer, ∀ w', m'.saved? = some w' → ¬ m'.engine.store.Shares event.path w'.1) →
        w = (event.path, event.insights) ∧
          e.store.load event.path = (.ok (some event.insights), [])

/-- **The cache always shows the latest finished analysis**, whatever was asked for, started,
    stopped and cleared in whatever order, if nothing was loaded. -/
theorem Run.shows_latest (h : Run (built settings store isAdvised bus) past e)
    (unloaded : ∀ m ∈ past, m.action.isLoad = false) {later before : List Moment} {m : Moment}
    (hpast : past = later ++ m :: before) {event : Event} (told : event ∈ m.told)
    (terminal : event.isTerminal = true) :
    ∃ t, m.hand?.map (·.task) = some t ∧ t.path = event.path ∧
      LatestShown later m before e t event := by
  subst hpast
  obtain ⟨e₁, first, hs, after⟩ := h.cut
  have early : ∀ m' ∈ before, m'.action.isLoad = false := fun m' hm' =>
    unloaded m' (List.mem_append_right _ (List.mem_cons_of_mem _ hm'))
  obtain ⟨i, p, b, p', hp, hb, worked, path, written, same, -, -⟩ :=
    ending_of_told hs told terminal
  have settled := first.settled early hp hb
  have late := first.epoch_ne_iff ((hand?_of_at hp).trans hb)
  have stays (silent : ∀ m' ∈ later, m'.wroteFor? event.path = none) :=
    after.entry_kept silent
  rw [same] at stays
  refine ⟨b.task, by rw [worked]; rfl, path.symm, ?_, ?_, ?_⟩
  · -- the cache was not cleared since the task was taken
    intro kept
    have current : b.epoch = m.engine.epoch := Decidable.not_not.mp fun ne => kept (late.mp ne)
    have entry : m.engine.cache.get? event.path = some event.insights := by
      rw [path]
      exact settled.current current _ written
    refine ⟨shows_of_entry entry, fun silent uncleared => shows_of_entry ?_⟩
    rcases stays silent with ⟨-, c, hc, clear⟩ | kept
    · rw [uncleared c hc] at clear
      cases clear
    · exact kept.trans entry
  · -- it was cleared, and nobody has written since
    intro cleared
    have none' : m.engine.cache.get? event.path = none := by
      rw [settled.cleared (late.mpr cleared)]
      rfl
    have absent {e : Engine} (h : e.cache.get? event.path = none) :
        e.cache.contains event.path = false := by
      rw [Table.contains, h]
      rfl
    refine ⟨absent none', fun silent => absent ?_⟩
    rcases stays silent with ⟨gone, -⟩ | kept
    · exact gone
    · exact kept.trans none'
  · -- what was told is what is saved
    rintro newer s older w rfl own saved fits unshared
    have whole : newer ++ s :: older ++ m :: before = newer ++ s :: (older ++ m :: before) := by
      simp
    rw [whole] at h
    exact h.stored_of_told told terminal worked path own saved fits unshared

end Run

/-- A file with a function of too many parameters is analysed, and what was found is saved. -/
def analysedAndSaved : List Action := analysedLostLoaded.take 11

theorem shows_latest_analysis :
    ∃ past e later m before event t, Run (built default (.memory .empty) false {}) past e ∧
      (∀ m' ∈ past, m'.action.isLoad = false) ∧ past = later ++ m :: before ∧ event ∈ m.told ∧
      event.isTerminal = true ∧ event.insights ≠ [] ∧ (∃ s ∈ later, s.saved? ≠ none) ∧
      m.hand?.map (·.task) = some t ∧ t.path = event.path ∧
        LatestShown later m before e t event := by
  obtain ⟨⟨past, e⟩, ht, facts⟩ := Option.map_eq_some_iff.mp (show
    (trace? analysedAndSaved ([], built default (.memory .empty) false {})).map (fun r =>
      (r.1.all (!·.action.isLoad), (r.1.take 1).any (·.saved?.isSome),
        (r.1[1]?.map fun m => m.told.map fun event =>
          (event.isTerminal, event.insights.isEmpty)))) =
        some (true, true, some [(true, false)]) by decide)
  simp only [Prod.mk.injEq, List.all_eq_true, List.any_eq_true, Bool.not_eq_true',
    Option.isSome_iff_ne_none, Option.map_eq_some_iff] at facts
  obtain ⟨unloaded, saved, m, hm, events⟩ := facts
  obtain ⟨event, rest, all, facts, -⟩ := List.map_eq_cons_iff.mp events
  obtain ⟨terminal, found⟩ := Prod.mk.inj facts
  have told : event ∈ m.told := by
    rw [all]
    exact List.mem_cons_self
  have run := Run.start.of_trace? ht
  obtain ⟨t, worked, path, shown⟩ :=
    run.shows_latest unloaded (split_of_getElem? hm) told terminal
  refine ⟨past, e, _, m, _, event, t, run, unloaded, split_of_getElem? hm, told, terminal, ?_,
    saved, worked, path, shown⟩
  intro none'
  rw [none'] at found
  cases found

end Engine

end CodeInsight
