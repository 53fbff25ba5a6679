import CodeInsight.Proofs.Bus.Delivery
import CodeInsight.Proofs.Engine.Latest
import CodeInsight.Proofs.Engine.Outward
import CodeInsight.Proofs.Engine.Situations

/-!
# How tasks are concluded

* an event that is told of is delivered: every handler registered for its kind is called for it,
  and then it goes out (`delivered_of_told`); where handlers call each other without end, the worker
  never gets to the step;
* a worker has done with a completed task only after its result came too late or was saved, or could
  not be saved (`decided_course`);
* so **a finished task was concluded** (`Run.concluded`): its end was delivered, and what it found
  was taken care of.
-/

namespace CodeInsight

/-! ## 1. What a conclusion is -/

namespace Moment

/-- Whether a worker came with the result of an analysis, and too late. -/
def isOutdated (m : Moment) : Bool :=
  match m.action with
  | .worker _ .cache => m.isLate
  | _ => false

/-- Whether the saving of a result ended, with or without success. -/
def isSave (m : Moment) : Bool :=
  match m.action with
  | .worker _ (.save _) => true
  | _ => false

end Moment

/-- **An event was delivered in a moment**: every handler that was registered for its kind was
    called for it, and it went out as the last event of the moment. -/
structure Delivered (m : Moment) (event : Event) : Prop where
  handled : ∃ news, m.after.history = news ++ m.engine.history ∧
    ∀ r ∈ m.engine.bus.handlersOf event.kind, .noticed (.called r.id event) ∈ news
  sent : ∃ inside, m.after.bus.channel.order = m.engine.bus.channel.order ++ inside ++ [event]

/-- The result of a task came too late, since the cache was cleared after the task was taken. -/
def Outdated (past : List Moment) (t : Task) : Prop :=
  ∃ later c before, past = later ++ c :: before ∧ c.isOutdated = true ∧
    c.hand?.map (·.task) = some t ∧ ClearedSince before t

/-- **A task was concluded with an event**: its worker told of its one end, and that was delivered;
    and if the analysis was completed and not outdated, the saving of its result ended too. -/
structure ConcludedWith (past : List Moment) (t : Task) (event : Event) : Prop where
  about : event.path = t.path
  one : (toldOf past t).filter Event.isTerminal = [event]
  delivered : ∃ m ∈ past, m.hand?.map (·.task) = some t ∧ event ∈ m.told ∧ Delivered m event
  saved : event.kind = .completed → ¬ Outdated past t →
    ∃ s ∈ past, s.isSave = true ∧ s.hand?.map (·.task) = some t

/-- A task was concluded. -/
def Concluded (past : List Moment) (t : Task) : Prop := ∃ event, ConcludedWith past t event

/-! ## 2. Delivery -/

namespace Publishing

/-- Each call is seen. -/
theorem called_mem_callsCourse {event : Event} {c : HandlerCall Publishing}
    {calls : List (HandlerCall Publishing)} (made : c ∈ calls) :
    .called c.handler.id event ∈ callsCourse event calls := by
  induction calls with
  | nil => cases made
  | cons d calls ih =>
    rw [callsCourse_cons]
    rcases List.mem_cons.mp made with rfl | made
    · exact List.mem_cons_self
    · exact List.mem_cons_of_mem _ (List.mem_append_right _ (ih made))

end Publishing

namespace EventBus

variable {depth : Nat} {b b' : EventBus} {event : Event}

/-- A publishing that ends has called every handler registered for the kind of its event. -/
theorem called_mem_of_publish? (h : publish? depth b event = some b') {r : Registration}
    (hr : r ∈ b.handlersOf event.kind) : .called r.id event ∈ b'.notices := by
  obtain ⟨⟨b, event, calls⟩, rfl, rfl, ran, nests, faithful⟩ := publish?_eq_some_iff.mp h
  have own : calls.map (·.handler) = b.handlersOf event.kind := faithful _ (.self _)
  have hr : r ∈ calls.map (·.handler) := own.symm ▸ hr
  obtain ⟨c, hc, rfl⟩ := List.mem_map.mp hr
  have seen : (c.handler.id, event) ∈ b'.called := by
    rw [(ran.shows nests).called]
    refine List.mem_append_right _ (List.mem_filterMap.mpr ⟨.called c.handler.id event, ?_, rfl⟩)
    exact List.mem_append_left _ (Publishing.called_mem_callsCourse hc)
  obtain ⟨n, hn, found⟩ := List.mem_filterMap.mp (List.mem_reverse.mp seen)
  cases n with
  | called id event' =>
    cases found
    exact hn
  | _ => cases found

/-- A publishing that ends sends its event last. -/
theorem order_of_publish? (h : publish? depth b event = some b') :
    ∃ inside, b'.channel.order = b.channel.order ++ inside ++ [event] := by
  obtain ⟨⟨b, event, calls⟩, rfl, rfl, ran, nests, -⟩ := publish?_eq_some_iff.mp h
  refine ⟨(Publishing.callsCourse event calls).filterMap DeliveryStep.sent?, ?_⟩
  have course : (Publishing.mk b event calls).course =
      Publishing.callsCourse event calls ++ [.sent event] := rfl
  rw [(ran.shows nests).sent, course, List.filterMap_append, List.append_assoc]
  rfl

end EventBus

namespace Engine

section Delivery

variable {e e' : Engine} {a : Action} {event : Event}

/-- What publishing an event makes of the engine if the handlers called come to an end. -/
theorem publish_of_ends {b : EventBus} (h : e.bus.published? event = some b) :
    e.publish event =
      { e with
        bus := { b with notices := [] }
        history :=
          .published event :: ((b.notices.reverse.map .noticed).reverse ++ e.history) } := by
  unfold publish EventBus.publish EventBus.takeNotices
  rw [h]
  dsimp only [Option.getD_some]
  rw [foldl_record]
  rfl

/-- **What is told of is delivered**. -/
theorem delivered_of_told (hs : e.step? a = some e') (told : event ∈ (Moment.mk e a).told) :
    Delivered ⟨e, a⟩ event := by
  rcases tells_of_step hs with same | ⟨i, s, p, event', p', rfl, -, tells, more, -⟩
  · rw [told_of_silent hs same] at told
    cases told
  · rw [told_of_published hs more] at told
    obtain rfl := List.mem_singleton.mp told
    have telling : s.isTelling = true := by cases tells <;> rfl
    obtain ⟨event', q, settles, rfl⟩ := publish_of_telling hs telling
    -- the step tells of one event, so that is the one it publishes
    obtain ⟨bus, hs', silent, published⟩ := e.publish_eq event'
    have own : e.events ++ [event'] = e.events ++ [event] :=
      (events_of_published (by rw [published]; rfl) silent).symm.trans more
    obtain rfl : event' = event := by simpa using own
    obtain ⟨b, hb⟩ := Option.isSome_iff_exists.mp settles
    obtain ⟨depth, ends⟩ := EventBus.published?_eq_some_iff.mp hb
    have after : (Moment.mk e (.worker i s)).after = (e.publish event').move i q :=
      after_of_step hs
    rw [publish_of_ends hb] at after
    constructor
    · refine ⟨.published event' :: (b.notices.reverse.map .noticed).reverse, ?_, fun r hr => ?_⟩
      · rw [after]
        rfl
      · refine List.mem_cons_of_mem _ (List.mem_reverse.mpr (List.mem_map_of_mem ?_))
        exact List.mem_reverse.mpr (EventBus.called_mem_of_publish? ends hr)
    · obtain ⟨inside, order⟩ := EventBus.order_of_publish? ends
      exact ⟨inside, by rw [after]; exact order⟩

end Delivery

/-! ## 3. What becomes of a result -/

/-- How far a worker has come with its task says what has become of the result: a result that is not
    to be saved came too late, and a completed task is done with only after that or after a save. -/
def Decided (work : List Moment) : Phase → Prop
  | .advising _ _ current | .closing _ _ current =>
    current = false → ∃ m ∈ work, m.isOutdated = true
  | .finishing => (∃ event ∈ toldIn work, event.kind = .completed) →
    (∃ m ∈ work, m.isOutdated = true) ∨ ∃ m ∈ work, m.isSave = true
  | _ => True

section Result

variable {settings : Settings} {store : InsightStore} {isAdvised : Bool} {bus : EventBus}
variable {past : List Moment} {e e' : Engine} {a : Action}

/-- **A step on a task decides on its result as it goes on.** -/
theorem decided_step {b : Assignment} (h : Run (built settings store isAdvised bus) past e)
    (hs : e.step? a = some e') (worked : (Moment.mk e a).hand? = some b)
    (so : ∀ i p, e.At i p → p.assignment? = some b → Decided (workOn past b.task) p) :
    ∃ i p, e.hand? i = some b ∧ e'.phases = e.phases.set i p ∧
      Decided (⟨e, a⟩ :: workOn past b.task) p := by
  have goOn := @goes_on e e' a (fun _ p => Decided (workOn past b.task) p)
    (fun _ p => Decided (⟨e, a⟩ :: workOn past b.task) p) b worked so
  have later {f : Moment → Bool} (h : ∃ m ∈ workOn past b.task, f m = true) :
      ∃ m ∈ (⟨e, a⟩ :: workOn past b.task : List Moment), f m = true := by
    obtain ⟨m, hm, hf⟩ := h
    exact ⟨m, List.mem_cons_of_mem _ hm, hf⟩
  cases effect_of_step hs with
  | aside _ idle _ _ => rw [idle] at worked; cases worked
  | takeNothing h _ => rw [worked_of_at h] at worked; cases worked
  | take h _ => rw [worked_of_at h] at worked; cases worked
  | jobLost nobody => simp [Moment.hand?, nobody] at worked
  | request | requestBreaksOff | clear | loadBegins | loadAnswered | loadCached | loadNotCached =>
    cases worked
  | content h | unreadable h | announce h | emptied h | notEmptied h =>
    exact goOn h rfl (worked_of_at h) (phases_move _ _ _) fun _ => trivial
  | outOfTime h hp _ =>
    rcases hp with rfl | ⟨job, rfl⟩ <;>
      exact goOn h rfl (worked_of_at h) (phases_move _ _ _) fun _ => trivial
  | cached h _ =>
    exact goOn h rfl (worked_of_at h) (phases_move _ _ _) fun _ outdated => by cases outdated
  | @notCached i c r h outdated =>
    have late : (Moment.mk e (.worker i .cache)).isOutdated = true := by
      have hand : (Moment.mk e (.worker i .cache)).hand? = some c := worked_of_at h
      simp [Moment.isOutdated, Moment.isLate, hand, outdated]
    exact goOn h rfl (worked_of_at h) (phases_move _ _ _) fun _ _ =>
      ⟨_, List.mem_cons_self, late⟩
  | advise h _ =>
    exact goOn h rfl (worked_of_at h) (phases_move _ _ _) fun decided outdated =>
      later (decided outdated)
  | @close i c r current _ _ h _ =>
    cases current with
    | true => exact goOn h rfl (worked_of_at h) (phases_move _ _ _) fun _ => trivial
    | false =>
      exact goOn h rfl (worked_of_at h) (phases_move _ _ _) fun decided _ =>
        .inl (later (decided rfl))
  | saved h _ | notSaved h _ _ =>
    exact goOn h rfl (worked_of_at h) (phases_move _ _ _) fun _ _ =>
      .inr ⟨_, List.mem_cons_self, rfl⟩
  | @report i c fault _ _ h' silent =>
    -- till a failure is told of nothing was, so nothing was completed
    cases worked.symm.trans (worked_of_at h')
    have untold : toldIn (workOn past b.task) = [] := soFar_course.hand h h' rfl
    refine goOn h' rfl (worked_of_at h') (phases_move _ _ _) fun _ completed => ?_
    obtain ⟨event, told, kind⟩ := completed
    rw [toldIn_cons, untold, told_of_published hs (events_of_published rfl silent)] at told
    obtain rfl := List.mem_singleton.mp told
    cases kind
  | breakdown h _ _ _ => exact ⟨_, _, worked, phases_move _ _ _, trivial⟩
  | analysed _ _ waits | notAnalysed waits _ =>
    exact goOn (at_of_waiter? waits) rfl (by simp [Moment.hand?, waits]) (phases_move _ _ _)
      fun _ => trivial

/-- **What becomes of a result is a course.** -/
theorem decided_course : Course settings store isAdvised bus fun _ _ p work => Decided work p where
  fresh _ _ := trivial
  idle _ _ _ q := q
  work h hs worked so := decided_step h hs worked so

end Result

/-! ## 4. Runs -/

section Run

variable {settings : Settings} {store : InsightStore} {isAdvised : Bool} {bus : EventBus}
variable {past : List Moment} {e : Engine} {t : Task}

/-- A result that came too late is one whose task was taken before the cache was cleared. -/
theorem Run.outdated (h : Run (built settings store isAdvised bus) past e) {c : Moment}
    (hc : c ∈ past) (late : c.isOutdated = true) (worked : c.hand?.map (·.task) = some t) :
    Outdated past t := by
  obtain ⟨later, before, rfl⟩ := List.append_of_mem hc
  obtain ⟨e₁, till, -, -⟩ := h.cut
  obtain ⟨b, hb, rfl⟩ := Option.map_eq_some_iff.mp worked
  refine ⟨later, c, before, rfl, late, worked, ?_⟩
  obtain ⟨e₀, a⟩ := c
  obtain ⟨i, hi⟩ := hand_of_worked hb
  refine (till.epoch_ne_iff hi).mp ?_
  unfold Moment.isOutdated at late
  split at late
  · rename_i j ha
    have ha : a = .worker j .cache := ha
    subst ha
    have other : e₀.epoch ≠ b.epoch := by simpa [Moment.isLate, hb] using late
    exact other.symm
  · cases late

/-- What was worked on a task has its moment in the run. -/
theorem of_mem_workOn {m : Moment} (h : m ∈ workOn past t) :
    m ∈ past ∧ m.hand?.map (·.task) = some t := by
  obtain ⟨there, own⟩ := List.mem_filter.mp h
  exact ⟨there, of_decide_eq_true own⟩

/-- The saving of a completed result that was not outdated ended before its task was done with. -/
theorem Run.saved_of_completed (h : Run (built settings store isAdvised bus) past e)
    (sound : ∀ m ∈ past, m.action.isSound = true) (ended : t ∈ endedIn past) {event : Event}
    (told : event ∈ toldOf past t) (completed : event.kind = .completed)
    (current : ¬ Outdated past t) :
    ∃ s ∈ past, s.isSave = true ∧ s.hand?.map (·.task) = some t := by
  obtain ⟨e₁, b, p, -, -, last, decided⟩ := decided_course.ended h ended
  rw [last sound] at decided
  rcases decided ⟨event, told, completed⟩ with ⟨c, hc, late⟩ | ⟨s, hs, save⟩
  · obtain ⟨there, own⟩ := of_mem_workOn hc
    exact absurd (h.outdated there late own) current
  · obtain ⟨there, own⟩ := of_mem_workOn hs
    exact ⟨s, there, save, own⟩

/-- **A finished task was concluded**, as long as no collaborator breaks down. -/
theorem Run.concluded (h : Run (built settings store isAdvised bus) past e)
    (sound : ∀ m ∈ past, m.action.isSound = true) (ended : t ∈ endedIn past) :
    Concluded past t := by
  obtain ⟨event, one, path⟩ := h.endsOnce sound ended
  have ends : event ∈ (toldOf past t).filter Event.isTerminal := by
    rw [one]
    exact List.mem_singleton_self event
  have told := (List.mem_filter.mp ends).1
  obtain ⟨m, hm, now⟩ := List.mem_flatMap.mp told
  obtain ⟨there, own⟩ := of_mem_workOn (List.mem_reverse.mp hm)
  obtain ⟨later, before, split⟩ := List.append_of_mem there
  obtain ⟨e₁, -, hs, -⟩ := (split ▸ h).cut
  refine ⟨event, path, one, ⟨m, there, own, now, delivered_of_told hs now⟩, ?_⟩
  exact fun completed current => h.saved_of_completed sound ended told completed current

end Run

end Engine

end CodeInsight
