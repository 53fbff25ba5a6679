import CodeInsight.Proofs.Bus.Channel
import CodeInsight.Proofs.Engine.Asides
import CodeInsight.Proofs.Engine.Telling

/-!
# What the engine shows to the outside

* as long as nobody registers with the bus, the stream is what was published, in its order
  (`Streams`): every step that publishes sends, and no other step touches the bus;
* a worker with a task is seen (`Seen`): the loop is idle only while no task is in a hand.
-/

namespace CodeInsight

/-- Whether a worker publishes an event with a step. -/
def WorkerStep.isTelling : WorkerStep → Bool
  | announce | close | report => true
  | _ => false

namespace Engine

variable {e e' : Engine} {a : Action}

/-! ## 1. Steps that do no work -/

@[simp] theorem bus_wakeOne (e : Engine) : e.wakeOne.bus = e.bus := by
  unfold wakeOne
  split <;> rfl

@[simp] theorem loop_wakeOne (e : Engine) : e.wakeOne.loop = e.loop := by
  unfold wakeOne
  split <;> rfl

@[simp] theorem bus_abandon (e : Engine) (i : Nat) (notified : Bool) (p : Phase) :
    (e.abandon i notified p).bus = e.bus := by
  unfold abandon
  cases notified
  · rfl
  · exact bus_wakeOne _

@[simp] theorem loop_abandon (e : Engine) (i : Nat) (notified : Bool) (p : Phase) :
    (e.abandon i notified p).loop = e.loop := by
  unfold abandon
  cases notified
  · rfl
  · exact loop_wakeOne _

@[simp] theorem bus_stop (e : Engine) : e.stop.bus = e.bus := by
  unfold Engine.stop
  split <;> rfl

@[simp] theorem loop_stop (e : Engine) : e.stop.loop = e.loop := by
  unfold Engine.stop
  split <;> rfl

/-- A worker is in the slot and has no task. -/
def Free (e : Engine) : Prop := ∃ i p, e.At i p ∧ p.inSlot = true ∧ p.assignment? = none

/-- Between two engines the bus is left alone, and what the loop is seen to do unless a worker
    without a task has told that it is idle. -/
def Shown (e e' : Engine) : Prop := e'.bus = e.bus ∧ (e'.loop = e.loop ∨ e'.loop = {} ∧ e.Free)

theorem shown_of_eq (bus : e'.bus = e.bus) (loop : e'.loop = e.loop) : Shown e e' :=
  ⟨bus, .inl loop⟩

/-- **A step that does no work** leaves the bus alone, and the loop is seen idle after it only if it
    was before or a worker without a task is in the slot. -/
theorem shown_of_aside (hs : e.step? a = some e') (ha : a.isAside = true) : Shown e e' := by
  cases aside_of_step hs ha with
  | goes | begins | takesUp | returns | tick => exact shown_of_eq rfl rfl
  | abandons => exact shown_of_eq (bus_abandon ..) (loop_abandon ..)
  | finishes h | leaves h => exact ⟨rfl, .inr ⟨rfl, _, _, h, rfl, rfl⟩⟩
  | wakes => exact shown_of_eq (bus_wakeOne _) (loop_wakeOne _)
  | start =>
    unfold Engine.start
    split <;> exact shown_of_eq rfl rfl
  | stop | stops => exact shown_of_eq (bus_stop e) (loop_stop e)

/-! ## 2. The stream -/

/-- **What is published goes out**, and nothing else does, since nobody registered with the bus. -/
structure Streams (e : Engine) : Prop where
  unheard : e.bus.registered = []
  order : e.bus.channel.order = e.events

/-- A step with which a worker publishes is the publishing of an event that settles, and the worker
    moves on. -/
theorem publish_of_telling {i : Nat} {s : WorkerStep} (hs : e.step? (.worker i s) = some e')
    (telling : s.isTelling = true) :
    ∃ event p, e.bus.settles event = true ∧ e' = (e.publish event).move i p := by
  obtain ⟨w, -, hs⟩ := Option.bind_eq_some_iff.mp hs
  unfold workerStep? at hs
  split at hs <;> first
    | exact absurd telling Bool.false_ne_true
    | exact ⟨_, _, tell?_eq_some hs⟩
    | cases hs

/-- A step with which no worker publishes leaves the bus alone. -/
theorem bus_of_step (hs : e.step? a = some e')
    (mute : ∀ i s, a = .worker i s → s.isTelling = false) : e'.bus = e.bus := by
  cases effect_of_step hs with
  | aside ha => exact (shown_of_aside hs ha).1
  | announce => cases mute _ _ rfl
  | close => cases mute _ _ rfl
  | report => cases mute _ _ rfl
  | _ => rfl

/-- Where nobody has registered, an event that is published goes out and is recorded. -/
theorem publish_of_unheard (h : e.bus.registered = []) (event : Event) :
    ∃ hs, Silent hs ∧ e.publish event =
      { e with
        bus := { e.bus with channel := e.bus.channel.send event, notices := [] }
        history := .published event :: (hs ++ e.history) } := by
  refine ⟨_, silent_map_reverse .noticed (fun _ => rfl) (e.bus.publish event).takeNotices.1, ?_⟩
  unfold Engine.publish
  dsimp only
  rw [foldl_record, EventBus.publish_of_unheard h]
  rfl

/-- An event that is published goes out. -/
theorem Streams.publish (h : e.Streams) (event : Event) : (e.publish event).Streams := by
  obtain ⟨hs, silent, published⟩ := publish_of_unheard h.unheard event
  have told : (e.publish event).events = e.events ++ [event] :=
    events_of_published (by rw [published]) silent
  refine ⟨by rw [published]; exact h.unheard, ?_⟩
  rw [told, ← h.order, published]
  exact Channel.order_send _ _

/-- **The stream goes on with what is published**, step by step. -/
theorem Streams.step (h : e.Streams) (hs : e.step? a = some e') : e'.Streams := by
  by_cases telling : ∃ i s, a = .worker i s ∧ s.isTelling = true
  · obtain ⟨i, s, rfl, telling⟩ := telling
    obtain ⟨event, p, -, rfl⟩ := publish_of_telling hs telling
    have sent := h.publish event
    exact ⟨sent.unheard, sent.order⟩
  · have mute (i : Nat) (s : WorkerStep) (ha : a = .worker i s) : s.isTelling = false :=
      Bool.eq_false_iff.mpr fun loud => telling ⟨i, s, ha, loud⟩
    have bus := bus_of_step hs mute
    refine ⟨by rw [bus]; exact h.unheard, ?_⟩
    rcases tells_of_step hs with same | ⟨i, s, p, event, p', ha, -, tells, -⟩
    · rw [bus, same, h.order]
    · cases tells <;> cases mute _ _ ha

/-! ## 3. Being seen at work -/

/-- **Whoever has a task is seen with one**: the loop is not idle then. -/
def Seen (e : Engine) : Prop := ∀ i b, e.hand? i = some b → e.loop.state = .processing

theorem Seen.step (h : e.Seen) (one : e.OneInSlot) (hs : e.step? a = some e') : e'.Seen := by
  intro i b hb
  have effect := effect_of_step hs
  have before (notTaken : ∀ j, a ≠ .worker j .take) : e.loop.state = .processing := by
    rcases effect.walk.hand_cases hb with before | ⟨taken, -⟩
    · exact h i b before
    · exact absurd taken (notTaken i)
  cases effect with
  | aside ha _ same _ =>
    rw [same.hand?] at hb
    rcases (shown_of_aside hs ha).2 with still | ⟨-, j, p, hj, slot, none⟩
    · rw [still]
      exact h i b hb
    · -- the one in the slot would have the task
      obtain ⟨q, hq, hqb⟩ := at_of_hand? hb
      have hij : i = j := one i j q p hq hj (inSlot_of_busy (by simp [hqb])) slot
      subst hij
      rw [hq.unique hj, none] at hqb
      cases hqb
  | takeNothing h' =>
    rw [(sameWork_move h' rfl rfl).hand?] at hb
    exact h i b hb
  | take => rfl
  | breakdown _ _ unsound =>
    refine before fun j taken => ?_
    rw [taken] at unsound
    cases unsound
  | _ => exact before nofun

end Engine

end CodeInsight
