import CodeInsight.Proofs.Engine.Files
import CodeInsight.Proofs.Engine.Latest
import CodeInsight.Proofs.Engine.Stopping
import CodeInsight.Proofs.Store.Placing

/-!
# What is told of is saved

* while nobody asks for an analysis or drops one, and no collaborator breaks down, no result is too
  late for the cache (`UpToDate`): so **each analysis that was told of as complete is saved next**,
  or it was tried to (`SaveBooks`);
* a directory of records is changed by saves only, and what has become of it is what the saves that
  succeeded have made of it (`StockedBy`);
* when the only call that shuts the engine down has returned, nobody is about to save any more
  (`hasEnded_of_returned`), so **it was tried to save everything that was told of as complete**
  (`SaveBooks.all_tried`).
-/

namespace CodeInsight

/-- The file and the insights that an event tells of. -/
def Event.completed? : Event → Option (String × List Insight)
  | completed path insights _ => some (path, insights)
  | _ => none

namespace Phase

/-- The file and the insights that are about to be saved. -/
def saving? : Phase → Option (String × List Insight)
  | saving a insights => some (a.path, insights)
  | _ => none

/-- Whether a result is in hand that was too late for the cache. -/
def isLate : Phase → Bool
  | advising _ _ current | closing _ _ current => !current
  | _ => false

end Phase

namespace Moment

/-- The file and the insights that it is tried to save. -/
def tried? (m : Moment) : Option (String × List Insight) :=
  match m.action with
  | .worker i (.save _) => m.engine.phases[i]?.bind Phase.saving?
  | _ => none

/-- The saving that has succeeded. -/
def saving? (m : Moment) : Option Saving := m.saved?.map fun w => ⟨w.1, w.2, m.engine.now⟩

end Moment

/-- What it was tried to save, the latest first. -/
def triedIn (past : List Moment) : List (String × List Insight) := past.filterMap Moment.tried?

/-- What was saved, the latest first. -/
def savedIn (past : List Moment) : List Saving := past.filterMap Moment.saving?

/-- The files and the insights that events tell of, in their order. -/
def completedIn (events : List Event) : List (String × List Insight) :=
  events.filterMap Event.completed?

namespace Engine

variable {e e' : Engine} {a : Action} {past : List Moment}

/-! ## 1. Nobody is late -/

/-- No result in hand is too late for the cache. -/
structure UpToDate (e : Engine) : Prop where
  epochs : ∀ i b, e.hand? i = some b → b.epoch = e.epoch
  phases : ∀ i p, e.At i p → p.isLate = false

theorem busy_of_isLate {p : Phase} (h : p.isLate = true) : p.assignment? ≠ none := by
  cases p <;> first | exact Option.some_ne_none _ | cases h

theorem isClear_of_isOrderly (orderly : a.isOrderly = true) : a.isClear = false := by
  cases a <;> first | rfl | cases orderly

/-- A worker that moves to a phase that is not late makes nobody late. -/
theorem notLate_of_move {i : Nat} {p₀ p : Phase} (h : ∀ i p, e.At i p → p.isLate = false)
    (moved : e'.phases = e.phases.set i p) (hp : e.At i p₀) (punctual : p.isLate = false) :
    ∀ i p, e'.At i p → p.isLate = false := by
  intro j q hq
  rw [at_of_move moved hp] at hq
  split at hq
  · rw [hq, punctual]
  · exact h j q hq

/-- **A step makes nobody late**, as long as the cache is not cleared. -/
theorem UpToDate.step (h : e.UpToDate) (hs : e.step? a = some e') (orderly : a.isOrderly = true) :
    e'.UpToDate := by
  have effect := effect_of_step hs
  have kept : e'.epoch = e.epoch := by
    rw [epoch_of_step hs, isClear_of_isOrderly orderly]
    rfl
  refine ⟨fun i b hb => ?_, ?_⟩
  · rw [kept]
    rcases effect.walk.hand_cases hb with before | ⟨-, -, same, -⟩
    · exact h.epochs i b before
    · exact same
  · have moves {i p₀ p} := @notLate_of_move e e' i p₀ p h.phases
    cases effect with
    | aside _ _ same _ =>
      intro i p hp
      cases late : p.isLate with
      | false => rfl
      | true =>
        rw [← late]
        exact h.phases i p ((same.busy i p (busy_of_isLate late)).mp hp)
    | request | requestBreaksOff | clear => cases orderly
    | loadBegins | loadAnswered | loadCached | loadNotCached | jobLost => exact h.phases
    | notCached at' outdated => exact absurd (h.epochs _ _ (hand?_of_at at')).symm outdated
    | advise at' =>
      have punctual := h.phases _ _ at'
      exact moves (phases_move _ _ _) at' punctual
    | @close i b r current bus hs at' =>
      refine moves (phases_move _ _ _) at' ?_
      cases current <;> rfl
    | analysed _ _ waits | notAnalysed waits =>
      exact moves (phases_move _ _ _) (at_of_waiter? waits) rfl
    | takeNothing at' | take at' | content at' | unreadable at' | outOfTime at' | announce at'
    | cached at' | saved at' | notSaved at' | emptied at' | notEmptied at' | report at'
    | breakdown at' => exact moves (phases_move _ _ _) at' rfl

/-! ## 2. The account of saves -/

/-- What is picked from one place at most is what is picked there. -/
theorem filterMap_eq_toList {α β : Type} {f : α → Option β} {l : List α} {i : Nat} {x : α}
    (h : l[i]? = some x) (others : ∀ j y, l[j]? = some y → j ≠ i → f y = none) :
    l.filterMap f = (f x).toList := by
  induction l generalizing i with
  | nil => cases h
  | cons z l ih =>
    cases i with
    | zero =>
      obtain rfl : z = x := by simpa using h
      have none' : l.filterMap f = [] := List.filterMap_eq_nil_iff.mpr fun y hy => by
        obtain ⟨j, hj⟩ := List.mem_iff_getElem?.mp hy
        exact others (j + 1) y (by simpa using hj) (Nat.succ_ne_zero j)
      cases hz : f z <;> simp [hz, none']
    | succ i =>
      have first : f z = none := others 0 z rfl (Nat.succ_ne_zero i).symm
      rw [List.filterMap_cons_none first]
      exact ih (by simpa using h) fun j y hj other =>
        others (j + 1) y (by simpa using hj) (by omega)

/-- What is about to be saved is in the hand of the one worker in the slot. -/
theorem OneInSlot.savings (one : e.OneInSlot) {i : Nat} {p : Phase} (h : e.At i p)
    (slot : p.inSlot = true) : e.phases.filterMap Phase.saving? = p.saving?.toList :=
  filterMap_eq_toList h fun j q hq other => by
    cases q <;> first | rfl | exact absurd (one j i _ _ hq h rfl slot) other

theorem busy_of_saving? {p : Phase} {w : String × List Insight} (h : p.saving? = some w) :
    p.assignment? ≠ none := by
  cases p <;> first | exact Option.some_ne_none _ | cases h

theorem tried?_of_isAside (h : a.isAside = true) : (Moment.mk e a).tried? = none := by
  unfold Moment.tried?
  split
  · rename_i ha
    rw [show a = _ from ha] at h
    cases h
  · rfl

theorem completedIn_append (events more : List Event) :
    completedIn (events ++ more) = completedIn events ++ completedIn more :=
  List.filterMap_append

/-- **What a step does to saves**: nothing, it tells of a complete analysis that is then about to be
    saved, or it tries to save that. -/
inductive Passes (e : Engine) (a : Action) (e' : Engine) : Prop where
  | nothing (told : completedIn e'.events = completedIn e.events)
      (untried : (Moment.mk e a).tried? = none)
      (same : e'.phases.filterMap Phase.saving? = e.phases.filterMap Phase.saving?)
  | tells (w : String × List Insight) (told : completedIn e'.events = completedIn e.events ++ [w])
      (untried : (Moment.mk e a).tried? = none) (before : e.phases.filterMap Phase.saving? = [])
      (after : e'.phases.filterMap Phase.saving? = [w])
  | tries (w : String × List Insight) (told : completedIn e'.events = completedIn e.events)
      (tried : (Moment.mk e a).tried? = some w) (before : e.phases.filterMap Phase.saving? = [w])
      (after : e'.phases.filterMap Phase.saving? = [])

section Step

variable {i : Nat} {p₀ p : Phase}

theorem Passes.goOn (moved : e'.phases = e.phases.set i p) (h : e.At i p₀)
    (unsaved : p.saving? = p₀.saving?) (told : e'.events = e.events)
    (untried : (Moment.mk e a).tried? = none) : Passes e a e' :=
  .nothing (by rw [told]) untried (filterMap_of_goOn moved h unsaved)

/-- Of an event that completes no analysis nothing is to be saved. -/
theorem Passes.mentions (moved : e'.phases = e.phases.set i p) (h : e.At i p₀)
    (unsaved : p.saving? = p₀.saving?) {event : Event} (other : event.completed? = none)
    (told : e'.events = e.events ++ [event]) (untried : (Moment.mk e a).tried? = none) :
    Passes e a e' := by
  refine .nothing ?_ untried (filterMap_of_goOn moved h unsaved)
  rw [told, completedIn_append, completedIn, completedIn, List.filterMap_cons_none other,
    List.filterMap_nil, List.append_nil]

/-- The one worker in the slot tries to save. -/
theorem Passes.saves (one : e.OneInSlot) (one' : e'.OneInSlot) {b : Assignment}
    {insights : List Insight} {outcome : SaveOutcome} (h : e.At i (.saving b insights))
    (moved : e'.phases = e.phases.set i .finishing) (told : e'.events = e.events) :
    Passes e (.worker i (.save outcome)) e' := by
  have there : e'.At i .finishing := at_moved moved h
  refine .tries (b.path, insights) (by rw [told]) ?_ (one.savings h rfl) (one'.savings there rfl)
  have h : e.phases[i]? = some (.saving b insights) := h
  simp [Moment.tried?, h, Phase.saving?]

end Step

/-- **Every step does one of these**, if nobody is late. -/
theorem passes_of_step (one : e.OneInSlot) (current : e.UpToDate) (hs : e.step? a = some e')
    (orderly : a.isOrderly = true) : Passes e a e' := by
  have effect := effect_of_step hs
  have one' := effect.walk.oneInSlot one
  cases effect with
  | request | requestBreaksOff | clear => cases orderly
  | breakdown _ _ unsound _ =>
    simp only [Action.isOrderly] at orderly
    rw [orderly] at unsound
    cases unsound
  | aside ha _ same _ =>
    exact .nothing (by rw [events_of_silent [] same.history rfl]) (tried?_of_isAside ha)
      (filterMap_of_sameWork (fun _ _ => busy_of_saving?) same)
  | loadBegins | jobLost => exact .nothing rfl rfl rfl
  | loadAnswered _ _ silent | loadNotCached _ _ silent =>
    exact .nothing (congrArg completedIn (events_of_silent _ rfl silent)) rfl rfl
  | loadCached => exact .nothing (congrArg completedIn (events_of_silent [_] rfl rfl)) rfl rfl
  | takeNothing h | content h | notCached h | notEmptied h =>
    exact .goOn (phases_move _ _ _) h rfl rfl rfl
  | take h | cached h | emptied h =>
    exact .goOn (phases_move _ _ _) h rfl (events_of_silent [_] rfl rfl) rfl
  | unreadable h silent | advise h silent =>
    exact .goOn (phases_move _ _ _) h rfl (events_of_silent _ rfl silent) rfl
  | outOfTime h hp silent =>
    refine .goOn (phases_move _ _ _) h ?_ (events_of_silent _ rfl silent) rfl
    rcases hp with rfl | ⟨job, rfl⟩ <;> rfl
  | analysed _ _ waits => exact .goOn (phases_move _ _ _) (at_of_waiter? waits) rfl rfl rfl
  | notAnalysed waits silent =>
    exact .goOn (phases_move _ _ _) (at_of_waiter? waits) rfl (events_of_silent _ rfl silent) rfl
  | announce h silent | report h silent =>
    exact .mentions (phases_move _ _ _) h rfl rfl (events_of_published rfl silent) rfl
  | saved h => exact .saves one one' h (phases_move _ _ _) (events_of_silent [_] rfl rfl)
  | notSaved h _ silent =>
    exact .saves one one' h (phases_move _ _ _) (events_of_silent _ rfl silent)
  | @close i b r kept _ _ h silent =>
    have punctual := current.phases _ _ h
    obtain rfl : kept = true := by simpa [Phase.isLate] using punctual
    have there : (e.move i (.saving b r.insights)).At i (.saving b r.insights) :=
      at_moved (phases_move _ _ _) h
    refine .tells (b.path, r.insights) ?_ rfl (one.savings h rfl) (one'.savings there rfl)
    rw [events_of_published rfl silent, completedIn_append]
    rfl

/-- **The account of saves**: what was told of as complete it was tried to save, or it is about to
    be saved. -/
structure SaveBooks (past : List Moment) (e : Engine) : Prop where
  one : e.OneInSlot
  current : e.UpToDate
  saves : completedIn e.events = (triedIn past).reverse ++ e.phases.filterMap Phase.saving?

/-- **A step keeps the account.** -/
theorem SaveBooks.step (h : SaveBooks past e) (hs : e.step? a = some e')
    (orderly : a.isOrderly = true) : SaveBooks (⟨e, a⟩ :: past) e' := by
  refine ⟨(effect_of_step hs).walk.oneInSlot h.one, h.current.step hs orderly, ?_⟩
  have saves := h.saves
  cases passes_of_step h.one h.current hs orderly with
  | nothing told untried same =>
    rw [told, same, triedIn, List.filterMap_cons_none untried]
    exact saves
  | tells w told untried before after =>
    rw [before, List.append_nil] at saves
    rw [told, after, triedIn, List.filterMap_cons_none untried, saves]
    rfl
  | tries w told tried before after =>
    rw [before] at saves
    rw [told, after, triedIn, List.filterMap_cons_some tried, List.reverse_cons, List.append_nil,
      saves]
    rfl

/-! ## 3. The directory of records -/

section Store

variable {naming : String → String} {directory : String} {entries : Table RecordEntry}

/-- The engine keeps insights in a directory of records, and what has become of it is what the
    saves that succeeded have made of it. -/
def StockedBy (naming : String → String) (directory : String) (entries : Table RecordEntry)
    (past : List Moment) (e : Engine) : Prop :=
  ∃ d, e.store = .records naming directory d ∧
    RecordDirectory.Stocked naming entries (savedIn past) d

/-- A moment in which nothing is saved leaves the store alone, or a save has failed. -/
theorem store_of_unsaved (hs : e.step? a = some e') (unsaved : (Moment.mk e a).saved? = none) :
    e'.store = e.store ∨ ∃ path insights cause,
      e.store.save path insights e.now = (.error cause, e'.store) := by
  cases effect_of_step hs with
  | aside _ _ same _ => exact .inl same.store
  | saved h done =>
    have h : e.phases[_]? = some _ := h
    simp [Moment.saved?, h, done] at unsaved
  | notSaved h failed =>
    rcases failed with same | ⟨cause, failed⟩
    · exact .inl same
    · exact .inr ⟨_, _, cause, failed⟩
  | _ => exact .inl rfl

/-- **Only a save that succeeds changes a record.** -/
theorem StockedBy.step (h : StockedBy naming directory entries past e)
    (hs : e.step? a = some e') : StockedBy naming directory entries (⟨e, a⟩ :: past) e' := by
  obtain ⟨d, store, stocked⟩ := h
  cases saved : (Moment.mk e a).saved? with
  | some w =>
    obtain ⟨path, insights⟩ := w
    have saving : (Moment.mk e a).saving? = some ⟨path, insights, e.now⟩ := by
      rw [Moment.saving?, saved]
      rfl
    obtain ⟨-, -, -, -, -, done⟩ := saving_of_saved saved
    have after := store_of_saved hs saved
    rw [store] at done after
    refine ⟨_, after, ?_⟩
    rw [savedIn, List.filterMap_cons_some saving]
    exact stocked.saved (x := ⟨path, insights, e.now⟩) (Prod.ext done rfl)
  | none =>
    have unsaved : (Moment.mk e a).saving? = none := by
      rw [Moment.saving?, saved]
      rfl
    rw [StockedBy, savedIn, List.filterMap_cons_none unsaved]
    rcases store_of_unsaved hs saved with same | ⟨path, insights, cause, failed⟩
    · exact ⟨d, same.trans store, stocked⟩
    · rw [store] at failed
      obtain ⟨broke, after⟩ := Prod.ext_iff.mp failed
      exact ⟨_, after.symm, stocked.failed (x := ⟨path, insights, e.now⟩) (Prod.ext broke rfl)⟩

end Store

/-! ## 4. After the engine was shut down -/

/-- Once a call that shuts the engine down has taken up the workers, nobody is left to be taken
    up. -/
def TakenUp (e : Engine) : Prop :=
  ∀ ph ∈ e.shutdowns, ph ≠ .begun → ph ≠ .stopped → e.handles = []

theorem TakenUp.step (h : e.TakenUp) (life : Lifecycle e a e') (noStart : a.isStart = false) :
    e'.TakenUp := by
  cases life with
  | same same =>
    intro ph hph
    rw [same.shutdowns] at hph
    rw [same.handles]
    exact h ph hph
  | start => cases noStart
  | stop =>
    intro ph hph
    rw [shutdowns_stop] at hph
    rw [handles_stop]
    exact h ph hph
  | begins =>
    intro ph hph begun
    rcases List.mem_append.mp hph with old | new
    · exact h ph old begun
    · exact absurd (List.mem_singleton.mp new) begun
  | stops =>
    intro ph hph begun stopped
    rw [shutdownMoves, shutdowns_stop] at hph
    rcases List.mem_or_eq_of_mem_set hph with old | rfl
    · exact (handles_stop e).trans (h ph old begun stopped)
    · exact absurd rfl stopped
  | takesUp => exact fun _ _ _ _ => rfl
  | @returns k ws there =>
    exact fun _ _ _ _ => h _ (List.mem_of_getElem? there) (by simp) (by simp)

/-- **When the only call that shuts the engine down has returned, every worker has ended.** -/
theorem hasEnded_of_returned (forgotten : e.NoneForgotten) (taken : e.TakenUp)
    (returned : e.shutdowns = [.returned]) (i : Nat) : e.hasEnded i = true := by
  have none' : e.handles = [] := taken .returned (by rw [returned]; simp) nofun nofun
  rcases forgotten i with ended | listed | ⟨k, ws, waiting, -⟩
  · exact ended
  · rw [none'] at listed
    cases listed
  · have waits := List.mem_of_getElem? waiting
    rw [returned] at waits
    cases List.mem_singleton.mp waits

/-- **Then it was tried to save whatever was told of as complete.** -/
theorem SaveBooks.all_tried (h : SaveBooks past e) (ended : ∀ i, e.hasEnded i = true) :
    completedIn e.events = (triedIn past).reverse := by
  have none' : e.phases.filterMap Phase.saving? = [] := by
    refine List.filterMap_eq_nil_iff.mpr fun p hp => ?_
    obtain ⟨i, hi⟩ := List.mem_iff_getElem?.mp hp
    have done := hasEnded_iff.mp (ended i) p hi
    cases p <;> first | rfl | cases done
  rw [h.saves, none', List.append_nil]

/-! ## 5. The account of an analysis -/

/-- **What is known while files are analysed**: what is saved, what has become of the records, and
    that no worker is forgotten. -/
structure Filing (naming : String → String) (directory : String) (entries : Table RecordEntry)
    (past : List Moment) (e : Engine) : Prop where
  saves : SaveBooks past e
  stocked : StockedBy naming directory entries past e
  forgotten : e.NoneForgotten
  taken : e.TakenUp

section Filing

variable {naming : String → String} {directory : String} {entries : Table RecordEntry}

/-- **A step keeps the account** if nobody starts the engine again. -/
theorem Filing.step (h : Filing naming directory entries past e) (hs : e.step? a = some e')
    (orderly : a.isOrderly = true) (noStart : a.isStart = false) :
    Filing naming directory entries (⟨e, a⟩ :: past) e' where
  saves := h.saves.step hs orderly
  stocked := h.stocked.step hs
  forgotten := h.forgotten.step (lifecycle_of_step hs)
  taken := h.taken.step (lifecycle_of_step hs) noStart

/-- What is logged changes no account. -/
theorem Filing.log (h : Filing naming directory entries past e) (lines : List LogLine) :
    Filing naming directory entries past (e.log lines) := by
  have told := e.events_log lines
  have saves := h.saves.saves
  rw [← told] at saves
  rw [log_eq] at saves ⊢
  have current := h.saves.current
  exact ⟨⟨h.saves.one, ⟨current.epochs, current.phases⟩, saves⟩, h.stocked, h.forgotten, h.taken⟩

end Filing

end Engine

end CodeInsight
