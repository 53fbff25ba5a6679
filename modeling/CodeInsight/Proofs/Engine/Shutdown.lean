import CodeInsight.Proofs.Engine.Asides
import CodeInsight.Proofs.Engine.Entries

/-!
# Shutting down

* no step but those of `start`, `stop` and `shutdown` starts a worker, tells one to stop or takes
  one up to wait for it, and a worker that has ended does nothing any more (`SameLives`,
  `lifecycle_of_step`);
* only the worker started last may not have been told to stop, and each worker has ended, is in the
  list of those nobody waits for, or is waited for by a call (`NoneForgotten`);
* **a call waits for workers that were told to stop**, but for those that were started after it had
  stopped the engine, and **when it has returned, the workers that were there when it began were
  told to stop and have ended**, unless another call still waits for them (`Run.shutsDown`);
* both exceptions happen (`shutdown_waits_for_running`, `shutdown_leaves_running`): a call
  stops the engine and takes up the workers in two stretches, and the list it takes is gone for
  others.
-/

namespace CodeInsight

namespace Moment

/-- The number of workers that were started before the moment. -/
def started (m : Moment) : Nat := m.engine.workers.length

/-- Whether call `k` to shut the engine down begins. -/
def begins (m : Moment) (k : Nat) : Bool :=
  match m.action with
  | .shutdownBegins => m.engine.shutdowns.length == k
  | _ => false

/-- Whether call `k` to shut the engine down stops it. -/
def stops (m : Moment) (k : Nat) : Bool :=
  match m.action with
  | .shutdownGoesOn j => j == k && m.engine.shutdowns[k]? == some .begun
  | _ => false

end Moment

namespace Engine

/-! ## 1. Tokens and ends -/

/-- Which workers were told to stop. -/
def tokens (e : Engine) : List Bool := e.workers.map (·.cancelled)

/-- Worker `i` was told to stop. -/
def Cancelled (e : Engine) (i : Nat) : Prop := e.tokens[i]? = some true

/-- Call `k` to shut the engine down waits for worker `i`. -/
def Awaits (e : Engine) (k i : Nat) : Prop := ∃ ws, e.shutdowns[k]? = some (.waiting ws) ∧ i ∈ ws

variable {e e' : Engine} {i k : Nat}

theorem length_tokens (e : Engine) : e.tokens.length = e.workers.length := by
  simp [tokens]

theorem lt_of_cancelled (h : e.Cancelled i) : i < e.tokens.length :=
  (List.getElem?_eq_some_iff.mp h).1

theorem hasEnded_iff : e.hasEnded i = true ↔ ∀ p, e.At i p → p.isOver = true := by
  unfold hasEnded At phases
  rw [List.getElem?_map]
  cases e.workers[i]? with
  | none => simp
  | some w => simp [Worker.isOver]

@[simp] theorem tokens_move (e : Engine) (i : Nat) (p : Phase) :
    (e.move i p).tokens = e.tokens := by
  unfold tokens move
  refine List.ext_getElem? fun j => ?_
  by_cases hj : i = j
  · simp [hj, Option.map_map, Function.comp_def]
  · simp [hj]

/-! ## 2. Steps that start and stop nobody -/

/-- Between two engines no worker was started, told to stop or taken up, no call to shut down went
    on, and the workers that had ended have. -/
structure SameLives (e e' : Engine) : Prop where
  tokens : e'.tokens = e.tokens
  latest : e'.latest = e.latest
  handles : e'.handles = e.handles
  shutdowns : e'.shutdowns = e.shutdowns
  ended : ∀ i, e.hasEnded i = true → e'.hasEnded i = true

theorem SameLives.trans {e₁ : Engine} (h : SameLives e e₁) (h' : SameLives e₁ e') :
    SameLives e e' where
  tokens := h'.tokens.trans h.tokens
  latest := h'.latest.trans h.latest
  handles := h'.handles.trans h.handles
  shutdowns := h'.shutdowns.trans h.shutdowns
  ended i hi := h'.ended i (h.ended i hi)

/-- Other things may change while no worker does. -/
theorem sameLives_of_eq (workers : e'.workers = e.workers) (latest : e'.latest = e.latest)
    (handles : e'.handles = e.handles) (shutdowns : e'.shutdowns = e.shutdowns) :
    SameLives e e' := by
  refine ⟨by rw [tokens, tokens, workers], latest, handles, shutdowns, fun i hi => ?_⟩
  unfold hasEnded at hi ⊢
  rw [workers]
  exact hi

/-- A worker that has not ended moves. -/
theorem sameLives_move {p₀ p : Phase} (h : e.At i p₀) (alive : p₀.isOver = false) :
    SameLives e (e.move i p) := by
  refine ⟨tokens_move e i p, rfl, rfl, rfl, fun j hj => ?_⟩
  rw [hasEnded_iff] at hj ⊢
  intro q hq
  rw [at_of_move (phases_move e i p) h] at hq
  split at hq
  · rename_i same
    rw [hj p₀ (same ▸ h)] at alive
    cases alive
  · exact hj q hq

/-- A worker moves, and other things change that are no worker's life. -/
theorem sameLives_of_move {e₁ : Engine} {p₀ p : Phase} (same : SameLives e e₁) (h : e₁.At i p₀)
    (alive : p₀.isOver = false) : SameLives e (e₁.move i p) :=
  same.trans (sameLives_move h alive)

theorem sameLives_wakeOne (e : Engine) : SameLives e e.wakeOne := by
  rcases wakeOne_cases e with ⟨same, -⟩ | ⟨i, there, moved⟩
  · rw [same]
    exact sameLives_of_eq rfl rfl rfl rfl
  · rw [moved]
    exact sameLives_move there rfl

theorem sameLives_abandon {notified : Bool} {p : Phase} (h : e.At i (.parked notified)) :
    SameLives e (e.abandon i notified p) := by
  have moved : SameLives e (e.move i p) := sameLives_move h rfl
  unfold abandon
  cases notified with
  | false => exact moved
  | true => exact moved.trans (sameLives_wakeOne _)

/-! ## 3. What a step does to the workers -/

/-- The engine with one more worker; of those nobody waits for only the ones are kept that have not
    ended. -/
def withWorker (e : Engine) : Engine :=
  { e with
    workers := e.workers ++ [{}]
    handles := (e.handles.filter fun h => !e.hasEnded h) ++ [e.workers.length]
    latest := some e.workers.length }

theorem tokens_withWorker (e : Engine) : e.withWorker.tokens = e.tokens ++ [false] := by
  simp [withWorker, tokens]

theorem hasEnded_withWorker (h : e.hasEnded i = true) (old : i ≠ e.workers.length) :
    e.withWorker.hasEnded i = true := by
  unfold hasEnded withWorker at *
  dsimp only
  by_cases there : i < e.workers.length
  · rw [List.getElem?_append_left there]
    exact h
  · rw [List.getElem?_eq_none (by simp; omega)]

/-- **What a step does to the workers**, with the engine after it. -/
inductive Lifecycle (e : Engine) : Action → Engine → Prop where
  | same {a : Action} {e' : Engine} (h : SameLives e e') : Lifecycle e a e'
  | start (off : e.isRunning = false) : Lifecycle e .start e.withWorker
  | stop : Lifecycle e .stop e.stop
  | begins : Lifecycle e .shutdownBegins e.shutdownBegins
  | stops {k : Nat} (h : e.shutdowns[k]? = some .begun) :
      Lifecycle e (.shutdownGoesOn k) (e.stop.shutdownMoves k .stopped)
  | takesUp {k : Nat} (h : e.shutdowns[k]? = some .stopped) :
      Lifecycle e (.shutdownGoesOn k)
        ({ e with handles := [] }.shutdownMoves k (.waiting e.handles))
  | returns {k : Nat} {ws : List Nat} (h : e.shutdowns[k]? = some (.waiting ws))
      (allEnded : ∀ i ∈ ws, e.hasEnded i = true) :
      Lifecycle e (.shutdownGoesOn k) (e.shutdownMoves k .returned)

theorem alive_of_busy {p : Phase} (h : p.assignment? ≠ none) : p.isOver = false := by
  cases p <;> first | rfl | exact absurd rfl h

theorem lifecycle_of_aside {a : Action} (h : Aside e a e') : Lifecycle e a e' := by
  cases h with
  | goes h before =>
    exact .same (sameLives_of_move (sameLives_of_eq rfl rfl rfl rfl) h (alive_of_between before))
  | abandons h => exact .same (sameLives_abandon h)
  | finishes h | leaves h => exact .same (sameLives_of_move (sameLives_of_eq rfl rfl rfl rfl) h rfl)
  | @wakes n =>
    have owed : SameLives e { e with wakesOwed := n } := sameLives_of_eq rfl rfl rfl rfl
    exact .same (owed.trans (sameLives_wakeOne _))
  | start =>
    unfold Engine.start
    split
    · exact .same (sameLives_of_eq rfl rfl rfl rfl)
    · rename_i off
      exact .start (Bool.eq_false_iff.mpr off)
  | stop => exact .stop
  | begins => exact .begins
  | stops h => exact .stops h
  | takesUp h => exact .takesUp h
  | returns h allEnded => exact .returns h allEnded
  | tick => exact .same (sameLives_of_eq rfl rfl rfl rfl)

/-- **Every step** does one of these things to the workers. -/
theorem lifecycle_of_step {a : Action} (hs : e.step? a = some e') : Lifecycle e a e' := by
  cases effect_of_step hs with
  | aside ha => exact lifecycle_of_aside (aside_of_step hs ha)
  | takeNothing h => exact .same (sameLives_move h rfl)
  | outOfTime h hp =>
    refine .same (sameLives_of_move (sameLives_of_eq rfl rfl rfl rfl) h ?_)
    rcases hp with rfl | ⟨job, rfl⟩
    · rfl
    · rfl
  | breakdown h busy =>
    exact .same (sameLives_of_move (sameLives_of_eq rfl rfl rfl rfl) h (alive_of_busy busy))
  | analysed _ _ waits =>
    exact .same (sameLives_of_move (sameLives_of_eq rfl rfl rfl rfl) (at_of_waiter? waits) rfl)
  | notAnalysed waits =>
    exact .same (sameLives_of_move (sameLives_of_eq rfl rfl rfl rfl) (at_of_waiter? waits) rfl)
  | request | requestBreaksOff | clear | loadBegins | loadAnswered | loadCached | loadNotCached
  | jobLost => exact .same (sameLives_of_eq rfl rfl rfl rfl)
  | take h | content h | unreadable h | announce h | cached h | notCached h | advise h | close h
  | saved h | notSaved h | emptied h | notEmptied h | report h =>
    exact .same (sameLives_of_move (sameLives_of_eq rfl rfl rfl rfl) h rfl)

/-! ## 4. What stays -/

theorem tokens_stop (e : Engine) :
    e.stop.tokens = match e.latest with
      | some i => e.tokens.set i true
      | none => e.tokens := by
  unfold stop
  cases e.latest with
  | none => rfl
  | some i =>
    unfold tokens
    refine List.ext_getElem? fun j => ?_
    by_cases hj : i = j
    · subst hj
      by_cases hi : i < e.workers.length
      · simp [hi]
      · simp [hi]
    · simp [hj]

theorem length_tokens_stop (e : Engine) : e.stop.tokens.length = e.tokens.length := by
  rw [tokens_stop]
  cases e.latest with
  | none => rfl
  | some i => exact List.length_set

theorem Cancelled.stop (h : e.Cancelled i) : e.stop.Cancelled i := by
  have there : i < e.tokens.length := lt_of_cancelled h
  unfold Cancelled at h ⊢
  rw [tokens_stop]
  cases e.latest with
  | none => exact h
  | some j =>
    by_cases hj : j = i
    · simp [hj, there]
    · simpa [hj] using h

theorem hasEnded_stop (e : Engine) (i : Nat) : e.stop.hasEnded i = e.hasEnded i := by
  rw [Bool.eq_iff_iff, hasEnded_iff, hasEnded_iff]
  unfold At
  rw [phases_stop]

theorem handles_stop (e : Engine) : e.stop.handles = e.handles := by
  unfold stop
  split <;> rfl

theorem shutdowns_stop (e : Engine) : e.stop.shutdowns = e.shutdowns := by
  unfold stop
  split <;> rfl

theorem latest_stop (e : Engine) : e.stop.latest = e.latest := by
  unfold stop
  split <;> rfl

/-- From one engine to the other workers were only added, and those that nobody waits for are old
    ones or were added. -/
structure Grown (e e' : Engine) : Prop where
  length : e.tokens.length ≤ e'.tokens.length
  cancelled : ∀ i, e.Cancelled i → e'.Cancelled i
  handles : ∀ i ∈ e'.handles, i ∈ e.handles ∨ e.tokens.length ≤ i

theorem SameLives.grown (h : SameLives e e') : Grown e e' := by
  refine ⟨Nat.le_of_eq (congrArg List.length h.tokens).symm, fun i hi => ?_, fun i hi =>
    .inl (h.handles ▸ hi)⟩
  unfold Cancelled
  rw [h.tokens]
  exact hi

theorem grown_stop (e : Engine) : Grown e e.stop :=
  ⟨Nat.le_of_eq (length_tokens_stop e).symm, fun _ hi => hi.stop,
    fun _ hi => .inl (handles_stop e ▸ hi)⟩

theorem Lifecycle.grown {a : Action} (h : Lifecycle e a e') : Grown e e' := by
  cases h with
  | same h => exact h.grown
  | start =>
    refine ⟨?_, fun i hi => ?_, fun i hi => ?_⟩
    · simp [tokens_withWorker]
    · unfold Cancelled
      rw [tokens_withWorker, List.getElem?_append_left (lt_of_cancelled hi)]
      exact hi
    · rcases List.mem_append.mp hi with old | new
      · exact .inl (List.mem_filter.mp old).1
      · exact .inr (Nat.le_of_eq ((length_tokens e).trans (List.mem_singleton.mp new).symm))
  | stop => exact grown_stop e
  | stops =>
    have grown := grown_stop e
    exact ⟨grown.length, grown.cancelled, grown.handles⟩
  | begins => exact ⟨Nat.le_refl _, fun _ hi => hi, fun _ hi => .inl hi⟩
  | takesUp => exact ⟨Nat.le_refl _, fun _ hi => hi, fun _ hi => absurd hi List.not_mem_nil⟩
  | returns => exact ⟨Nat.le_refl _, fun _ hi => hi, fun _ hi => .inl hi⟩

/-! ## 5. One worker after the other -/

/-- **Only the worker that was started last may not have been told to stop.** -/
structure Succession (e : Engine) : Prop where
  latest : ∀ i, e.latest = some i ↔ i + 1 = e.tokens.length
  replaced : ∀ i, i + 1 < e.tokens.length → e.Cancelled i

theorem Succession.of_eq (h : e.Succession) (tokens : e'.tokens = e.tokens)
    (latest : e'.latest = e.latest) : e'.Succession := by
  have same (i : Nat) : e'.Cancelled i ↔ e.Cancelled i := by rw [Cancelled, Cancelled, tokens]
  refine ⟨fun i => ?_, fun i hi => ?_⟩
  · rw [latest, tokens]
    exact h.latest i
  · rw [tokens] at hi
    exact (same i).mpr (h.replaced i hi)

/-- Once the engine was stopped every worker has been told to. -/
theorem Succession.cancelled_stop (h : e.Succession) (hi : i < e.tokens.length) :
    e.stop.Cancelled i := by
  by_cases last : i + 1 = e.tokens.length
  · unfold Cancelled
    rw [tokens_stop, (h.latest i).mpr last]
    simp [hi]
  · exact (h.replaced i (by omega)).stop

theorem Succession.stop (h : e.Succession) : e.stop.Succession := by
  refine ⟨fun i => ?_, fun i hi => ?_⟩
  · rw [latest_stop, length_tokens_stop]
    exact h.latest i
  · rw [length_tokens_stop] at hi
    exact h.cancelled_stop (by omega)

/-- Where no worker is running, every one has been told to stop. -/
theorem Succession.cancelled_of_off (h : e.Succession) (off : e.isRunning = false)
    (hi : i < e.tokens.length) : e.Cancelled i := by
  by_cases last : i + 1 = e.tokens.length
  · have there : i < e.workers.length := length_tokens e ▸ hi
    unfold isRunning at off
    rw [(h.latest i).mpr last, Option.bind_some, List.getElem?_eq_getElem there] at off
    unfold Cancelled tokens
    simpa [there] using off
  · exact h.replaced i (by omega)

theorem Succession.step {a : Action} (h : e.Succession) (life : Lifecycle e a e') :
    e'.Succession := by
  have grown := life.grown
  cases life with
  | same same => exact h.of_eq same.tokens same.latest
  | start off =>
    have length : e.withWorker.tokens.length = e.tokens.length + 1 := by simp [tokens_withWorker]
    refine ⟨fun i => ?_, fun i hi => grown.cancelled i (h.cancelled_of_off off (by omega))⟩
    have latest : e.withWorker.latest = some e.tokens.length := by
      rw [length_tokens]
      rfl
    rw [latest, length]
    constructor
    · intro hi
      rw [Option.some.inj hi]
    · intro hi
      exact congrArg some (by omega)
  | stop => exact h.stop
  | stops => exact h.stop.of_eq rfl rfl
  | begins => exact h.of_eq rfl rfl
  | takesUp => exact h.of_eq rfl rfl
  | returns => exact h.of_eq rfl rfl

/-! ## 6. No worker is forgotten -/

/-- **No worker is forgotten**: each has ended, or nobody waits for it yet, or a call to shut down
    does. -/
def NoneForgotten (e : Engine) : Prop :=
  ∀ i, e.hasEnded i = true ∨ i ∈ e.handles ∨ ∃ k, e.Awaits k i

/-- A call that goes on and did not wait is none of those that do. -/
theorem Awaits.moved {ph ph' : ShutdownPhase} (h : e.Awaits k i) {j : Nat}
    (there : e.shutdowns[j]? = some ph) (idle : ∀ ws, ph ≠ .waiting ws)
    (same : e'.shutdowns = e.shutdowns.set j ph') : e'.Awaits k i := by
  obtain ⟨ws, hws, hi⟩ := h
  have other : j ≠ k := by
    intro equal
    rw [← equal, there] at hws
    exact idle ws (Option.some.inj hws)
  exact ⟨ws, by rw [same, List.getElem?_set_ne other, hws], hi⟩

theorem NoneForgotten.step {a : Action} (h : e.NoneForgotten) (life : Lifecycle e a e') :
    e'.NoneForgotten := by
  intro i
  cases life with
  | same same =>
    rcases h i with ended | listed | ⟨k, ws, hk, hi⟩
    · exact .inl (same.ended i ended)
    · exact .inr (.inl (same.handles ▸ listed))
    · exact .inr (.inr ⟨k, ws, same.shutdowns ▸ hk, hi⟩)
  | start =>
    -- the new worker is put on the list, and only workers that have ended are taken from it
    by_cases new : i = e.workers.length
    · exact .inr (.inl (List.mem_append_right _ (List.mem_singleton.mpr new)))
    · have old (ended : e.hasEnded i = true) : e.withWorker.hasEnded i = true :=
        hasEnded_withWorker ended new
      rcases h i with ended | listed | awaited
      · exact .inl (old ended)
      · by_cases ended : e.hasEnded i = true
        · exact .inl (old ended)
        · have kept : i ∈ e.handles.filter fun h => !e.hasEnded h :=
            List.mem_filter.mpr ⟨listed, by simpa using ended⟩
          exact .inr (.inl (List.mem_append_left _ kept))
      · exact .inr (.inr awaited)
  | stop =>
    rw [hasEnded_stop, handles_stop]
    unfold Awaits
    rw [shutdowns_stop]
    exact h i
  | begins =>
    rcases h i with ended | listed | ⟨k, ws, hk, hi⟩
    · exact .inl ended
    · exact .inr (.inl listed)
    · obtain ⟨hlt, -⟩ := List.getElem?_eq_some_iff.mp hk
      exact .inr (.inr ⟨k, ws, (List.getElem?_append_left hlt).trans hk, hi⟩)
  | @stops k there =>
    have same : (e.stop.shutdownMoves k .stopped).shutdowns = e.shutdowns.set k .stopped := by
      rw [shutdownMoves, shutdowns_stop]
    rcases h i with ended | listed | ⟨j, hj⟩
    · exact .inl ((hasEnded_stop e i).trans ended)
    · exact .inr (.inl ((handles_stop e).symm ▸ listed))
    · exact .inr (.inr ⟨j, hj.moved there nofun same⟩)
  | @takesUp k there =>
    obtain ⟨hlt, -⟩ := List.getElem?_eq_some_iff.mp there
    rcases h i with ended | listed | ⟨j, hj⟩
    · exact .inl ended
    · exact .inr (.inr ⟨k, e.handles, List.getElem?_set_self hlt, listed⟩)
    · exact .inr (.inr ⟨j, hj.moved there nofun rfl⟩)
  | @returns k ws there allEnded =>
    rcases h i with ended | listed | ⟨j, vs, hj, hi⟩
    · exact .inl ended
    · exact .inr (.inl listed)
    · by_cases same : k = j
      · subst same
        obtain rfl : ws = vs := by simpa using there.symm.trans hj
        exact .inl (allEnded i hi)
      · exact .inr (.inr ⟨j, vs, (List.getElem?_set_ne same).trans hj, hi⟩)

/-! ## 7. Calls -/

/-- What is known of a call since the moment in which it began. -/
structure Serves (past : List Moment) (e : Engine) (k : Nat) (ph : ShutdownPhase) (b : Moment) :
    Prop where
  mem : b ∈ past
  begins : b.begins k = true
  started : b.started ≤ e.tokens.length
  /-- Unless it is yet to stop the engine, it has stopped it, and who was there then was told. -/
  stopped : ph ≠ .begun → ∃ s ∈ past, s.stops k = true ∧ b.started ≤ s.started ∧
    ∀ i < s.started, e.Cancelled i
  /-- Since it has taken up the workers, only new ones are on the list. -/
  takenUp : ph ≠ .begun → ph ≠ .stopped → ∀ i ∈ e.handles, b.started ≤ i

variable {past : List Moment} {m : Moment} {ph : ShutdownPhase} {b : Moment}

theorem Serves.later (h : Serves past e k ph b) (grown : Grown e e') (m : Moment) :
    Serves (m :: past) e' k ph b where
  mem := List.mem_cons_of_mem _ h.mem
  begins := h.begins
  started := Nat.le_trans h.started grown.length
  stopped hph := by
    obtain ⟨s, hs, stops, order, cancelled⟩ := h.stopped hph
    exact ⟨s, List.mem_cons_of_mem _ hs, stops, order,
      fun i hi => grown.cancelled i (cancelled i hi)⟩
  takenUp hph hph' i hi := by
    rcases grown.handles i hi with old | new
    · exact h.takenUp hph hph' i old
    · exact Nat.le_trans h.started new

/-- Every call has been serving since it began. -/
def Served (past : List Moment) (e : Engine) : Prop :=
  ∀ k ph, e.shutdowns[k]? = some ph → ∃ b, Serves past e k ph b

theorem Served.step {a : Action} (h : Served past e) (one : e.Succession)
    (life : Lifecycle e a e') : Served (⟨e, a⟩ :: past) e' := by
  have grown := life.grown
  have other {j : Nat} {ph : ShutdownPhase} (hj : e.shutdowns[j]? = some ph) :
      ∃ b, Serves (⟨e, a⟩ :: past) e' j ph b := by
    obtain ⟨b, serves⟩ := h j ph hj
    exact ⟨b, serves.later grown _⟩
  intro j ph hj
  cases life with
  | same same => exact other (same.shutdowns ▸ hj)
  | start => exact other hj
  | stop => exact other (shutdowns_stop e ▸ hj)
  | begins =>
    rcases Nat.lt_or_ge j e.shutdowns.length with old | new
    · exact other ((List.getElem?_append_left old).symm.trans hj)
    · have hj : (e.shutdowns ++ [.begun])[j]? = some ph := hj
      rw [List.getElem?_append_right new] at hj
      obtain ⟨rfl, rfl⟩ : j = e.shutdowns.length ∧ ph = .begun := by
        rcases hn : j - e.shutdowns.length with _ | n
        · rw [hn] at hj
          exact ⟨by omega, by simpa using hj.symm⟩
        · rw [hn] at hj
          cases hj
      refine ⟨⟨e, .shutdownBegins⟩, List.mem_cons_self, ?_,
        Nat.le_of_eq (length_tokens e).symm, ?_, ?_⟩
      · simp [Moment.begins]
      · exact fun hph => absurd rfl hph
      · exact fun hph => absurd rfl hph
  | @stops k there =>
    have hj : (e.stop.shutdowns.set k .stopped)[j]? = some ph := hj
    rw [shutdowns_stop] at hj
    rcases getElem?_set_cases hj with old | ⟨rfl, rfl⟩
    · exact other old
    · obtain ⟨b, serves⟩ := h k .begun there
      have later := serves.later grown ⟨e, .shutdownGoesOn k⟩
      refine ⟨b, later.mem, later.begins, later.started, fun _ => ?_, fun _ hph => absurd rfl hph⟩
      refine ⟨⟨e, .shutdownGoesOn k⟩, List.mem_cons_self, ?_, ?_, fun i hi => ?_⟩
      · simp [Moment.stops, there]
      · exact Nat.le_trans serves.started (Nat.le_of_eq (length_tokens e))
      · exact one.cancelled_stop (length_tokens e ▸ hi)
  | @takesUp k there =>
    rcases getElem?_set_cases hj with old | ⟨rfl, rfl⟩
    · exact other old
    · obtain ⟨b, serves⟩ := h k .stopped there
      have later := serves.later grown ⟨e, .shutdownGoesOn k⟩
      exact ⟨b, later.mem, later.begins, later.started, fun _ => later.stopped nofun,
        fun _ _ _ hi => absurd hi List.not_mem_nil⟩
  | @returns k ws there allEnded =>
    rcases getElem?_set_cases hj with old | ⟨rfl, rfl⟩
    · exact other old
    · obtain ⟨b, serves⟩ := h k (.waiting ws) there
      have later := serves.later grown ⟨e, .shutdownGoesOn k⟩
      exact ⟨b, later.mem, later.begins, later.started, fun _ => later.stopped nofun,
        fun _ _ => later.takenUp nofun nofun⟩

/-! ## 8. Runs -/

section Runs

variable {settings : Settings} {store : InsightStore} {isAdvised : Bool} {bus : EventBus}

theorem Run.succession (h : Run (built settings store isAdvised bus) past e) : e.Succession := by
  induction h with
  | start =>
    refine ⟨fun i => ?_, fun i hi => absurd hi (Nat.not_lt_zero _)⟩
    exact ⟨nofun, nofun⟩
  | step _ hs ih => exact ih.step (lifecycle_of_step hs)

theorem Run.noneForgotten (h : Run (built settings store isAdvised bus) past e) :
    e.NoneForgotten := by
  induction h with
  | start => exact fun _ => .inl rfl
  | step _ hs ih => exact ih.step (lifecycle_of_step hs)

theorem Run.served (h : Run (built settings store isAdvised bus) past e) : Served past e := by
  induction h with
  | start => exact fun k ph hk => by cases hk
  | step h hs ih => exact ih.step h.succession (lifecycle_of_step hs)

/-- **What a call does that shuts the engine down.** A worker it waits for was told to stop if it
    had been started when the call stopped the engine. Once the call has returned, every worker
    that had been started when it began was told to stop, and has ended unless another call waits
    for it. -/
structure ShutsDown (past : List Moment) (e : Engine) (k : Nat) : Prop where
  awaited : ∀ i, e.Awaits k i →
    ∃ s ∈ past, s.stops k = true ∧ (i < s.started → e.Cancelled i)
  returned : e.shutdowns[k]? = some .returned →
    ∃ b ∈ past, b.begins k = true ∧ ∀ i < b.started,
      e.Cancelled i ∧ (e.hasEnded i = true ∨ ∃ j, j ≠ k ∧ e.Awaits j i)

/-- **Shutting down** does that in every run, whatever other calls start, stop and shut the engine
    down in between. -/
theorem Run.shutsDown (run : Run (built settings store isAdvised bus) past e) (k : Nat) :
    ShutsDown past e k where
  awaited i awaits := by
    obtain ⟨ws, hk, -⟩ := awaits
    obtain ⟨b, serves⟩ := run.served k (.waiting ws) hk
    obtain ⟨s, hs, stops, -, cancelled⟩ := serves.stopped nofun
    exact ⟨s, hs, stops, cancelled i⟩
  returned hk := by
    obtain ⟨b, serves⟩ := run.served k .returned hk
    obtain ⟨s, -, -, order, cancelled⟩ := serves.stopped nofun
    refine ⟨b, serves.mem, serves.begins, fun i hi => ⟨cancelled i (by omega), ?_⟩⟩
    rcases run.noneForgotten i with ended | listed | ⟨j, hj⟩
    · exact .inl ended
    · -- the call took up all workers that were there
      exact absurd (serves.takenUp nofun nofun i listed) (by omega)
    · refine .inr ⟨j, ?_, hj⟩
      rintro rfl
      obtain ⟨ws, waiting, -⟩ := hj
      rw [hk] at waiting
      cases waiting

/-- One worker is started, and a call shuts the engine down. -/
def startedAndShut : List Action :=
  [.start, .shutdownBegins, .shutdownGoesOn 0, .shutdownGoesOn 0, .worker 0 .enterSlot,
    .worker 0 .look, .worker 0 .leave, .shutdownGoesOn 0]

theorem shutsDown_oneWorker :
    ∃ past e, Run (built default (.memory .empty) false {}) past e ∧
      e.shutdowns = [.returned] ∧ ShutsDown past e 0 := by
  obtain ⟨⟨past, e⟩, ht, done⟩ := Option.map_eq_some_iff.mp (show
    (trace? startedAndShut ([], built default (.memory .empty) false {})).map
      (·.2.shutdowns) = some [.returned] by decide)
  have run := Run.start.of_trace? ht
  exact ⟨past, e, run, done, run.shutsDown 0⟩

/-! ## 9. Two calls at once -/

/-- A worker takes a task; then two calls shut the engine down, the second one while the first
    waits for the worker. -/
def shutTwice : List Action :=
  [.request "a.ts" .medium .full, .start, .worker 0 .enterSlot, .worker 0 .look, .worker 0 .take,
    .shutdownBegins, .shutdownBegins, .shutdownGoesOn 0, .shutdownGoesOn 0, .shutdownGoesOn 1,
    .shutdownGoesOn 1, .shutdownGoesOn 1]

/-- **A call may leave a worker running**: the second call has returned, and the worker, which had
    been started before it began, still has its task in hand. -/
theorem shutdown_leaves_running :
    ∃ past e, Run (built default (.memory .empty) false {}) past e ∧
      e.shutdowns[1]? = some .returned ∧
      (∃ b ∈ past, b.begins 1 = true ∧ 0 < b.started) ∧ e.hasEnded 0 = false := by
  obtain ⟨⟨past, e⟩, ht, seen⟩ := Option.map_eq_some_iff.mp (show
    (trace? shutTwice ([], built default (.memory .empty) false {})).map
      (fun r => (r.2.shutdowns[1]?, r.1.any fun b => b.begins 1 && decide (0 < b.started),
        r.2.hasEnded 0)) = some (some .returned, true, false) by decide)
  have run := Run.start.of_trace? ht
  obtain ⟨returned, began, running⟩ : _ ∧ _ ∧ _ := by simpa only [Prod.mk.injEq] using seen
  obtain ⟨b, hb, began⟩ := List.any_eq_true.mp began
  rw [Bool.and_eq_true, decide_eq_true_eq] at began
  exact ⟨past, e, run, returned, ⟨b, hb, began⟩, running⟩

/-- A worker is started between the two stretches in which a call stops the engine and takes up the
    workers. -/
def startedMeanwhile : List Action :=
  [.start, .shutdownBegins, .shutdownGoesOn 0, .start, .shutdownGoesOn 0]

/-- **A call may wait for a worker that nobody told to stop.** -/
theorem shutdown_waits_for_running :
    ∃ past e, Run (built default (.memory .empty) false {}) past e ∧
      e.Awaits 0 1 ∧ ¬ e.Cancelled 1 := by
  obtain ⟨⟨past, e⟩, ht, seen⟩ := Option.map_eq_some_iff.mp (show
    (trace? startedMeanwhile ([], built default (.memory .empty) false {})).map
      (fun r => (r.2.shutdowns, r.2.tokens)) = some ([.waiting [0, 1]], [true, false]) by decide)
  have run := Run.start.of_trace? ht
  obtain ⟨waiting, tokens⟩ : _ ∧ _ := by simpa only [Prod.mk.injEq] using seen
  refine ⟨past, e, run, ⟨[0, 1], by rw [waiting]; rfl, by decide⟩, ?_⟩
  unfold Cancelled
  rw [tokens]
  decide

end Runs

end Engine

end CodeInsight
