import CodeInsight.Proofs.Engine.Effect

/-!
# Steps that do no work

* a worker *is between* tasks when it has none in its hand, was seen idle since it had one, and has
  not ended (`Phase.isBetween`);
* `Aside` lists what a step that does no work can be, with the engine after it; `aside_of_step` says
  that these are all, so no later proof opens `workerStep?` for such a step again.
-/

namespace CodeInsight

/-- Whether a worker is between two tasks, or waits for the slot. -/
def Phase.isBetween : Phase → Bool
  | queueing | checking | taking | parking | parked _ | resting | leaving => true
  | _ => false

namespace Engine

/-! ## 1. Between tasks -/

section Between

variable {p : Phase}

theorem alive_of_between (h : p.isBetween = true) : p.isOver = false := by
  cases p <;> first | rfl | cases h

theorem ne_finishing_of_between (h : p.isBetween = true) : p ≠ .finishing := by
  intro finishing
  rw [finishing] at h
  cases h

/-- A worker that is asleep waits for a task. -/
theorem parked_of_asleep (h : p.isAsleep = true) : p = .parked false := by
  cases p with
  | parked notified =>
    cases notified with
    | false => rfl
    | true => cases h
  | _ => cases h

end Between

/-- A wake-up reaches a worker that is asleep, or is kept, since nobody is. -/
theorem wakeOne_cases (e : Engine) :
    (e.wakeOne = { e with wakeKept := true } ∧ ∀ i, ¬ e.At i (.parked false)) ∨
      ∃ i, e.At i (.parked false) ∧ e.wakeOne = e.move i (.parked true) := by
  unfold wakeOne
  split
  · rename_i i hi
    obtain ⟨hlt, asleep, -⟩ := List.findIdx?_eq_some_iff_getElem.mp hi
    have there : e.At i (e.workers[i]).phase := at_iff.mpr ⟨_, List.getElem?_eq_getElem hlt, rfl⟩
    rw [parked_of_asleep asleep] at there
    exact .inr ⟨i, there, rfl⟩
  · rename_i nobody
    refine .inl ⟨rfl, fun i there => ?_⟩
    obtain ⟨w, hw, asleep⟩ := at_iff.mp there
    have awake := List.findIdx?_eq_none_iff.mp nobody w (List.mem_of_getElem? hw)
    rw [asleep] at awake
    cases awake

/-! ## 2. What such a step can be -/

/-- **What a step that does no work can be**, with the engine after it. -/
inductive Aside (e : Engine) : Action → Engine → Prop where
  /-- A worker between two tasks goes on to another phase, and may use up the wake-up kept. -/
  | goes {i : Nat} {s : WorkerStep} {p₀ p : Phase} {kept : Bool} (h : e.At i p₀)
      (before : p₀.isBetween = true) (after : p.isBetween = true)
      (other : ∀ j, Action.worker i s ≠ .worker j .finish) :
      Aside e (.worker i s) ({ e with wakeKept := kept }.move i p)
  /-- A worker stops waiting, and a wake-up that has reached it is passed on. -/
  | abandons {i : Nat} {s : WorkerStep} {notified : Bool} {p : Phase}
      (h : e.At i (.parked notified)) (after : p.isBetween = true)
      (other : ∀ j, Action.worker i s ≠ .worker j .finish) :
      Aside e (.worker i s) (e.abandon i notified p)
  /-- A worker that has done with its task is seen idle. -/
  | finishes {i : Nat} (h : e.At i .finishing) :
      Aside e (.worker i .finish) (e.seenIdle.move i .resting)
  /-- A worker leaves the slot and is seen idle. -/
  | leaves {i : Nat} (h : e.At i .leaving) :
      Aside e (.worker i .leave) (e.seenIdle.move i .exited)
  | wakes {n : Nat} : Aside e .payWake { e with wakesOwed := n }.wakeOne
  | start : Aside e .start e.start
  | stop : Aside e .stop e.stop
  | begins : Aside e .shutdownBegins e.shutdownBegins
  | stops {k : Nat} (h : e.shutdowns[k]? = some .begun) :
      Aside e (.shutdownGoesOn k) (e.stop.shutdownMoves k .stopped)
  | takesUp {k : Nat} (h : e.shutdowns[k]? = some .stopped) :
      Aside e (.shutdownGoesOn k) ({ e with handles := [] }.shutdownMoves k (.waiting e.handles))
  | returns {k : Nat} {ws : List Nat} (h : e.shutdowns[k]? = some (.waiting ws))
      (allEnded : ∀ i ∈ ws, e.hasEnded i = true) :
      Aside e (.shutdownGoesOn k) (e.shutdownMoves k .returned)
  | tick {now : Instant} : Aside e (.tick now) { e with now := now }

section Inversion

variable {e e' : Engine} {i : Nat}

theorem aside_of_workerStep {w : Worker} {s : WorkerStep} (hw : e.workers[i]? = some w)
    (hs : e.workerStep? i w s = some e') (ha : (Action.worker i s).isAside = true) :
    Aside e (.worker i s) e' := by
  have here {p : Phase} (hp : w.phase = p) : e.At i p := at_iff.mpr ⟨w, hw, hp⟩
  unfold workerStep? at hs
  -- a step of a worker with a task, one that is taken at once or under a condition, one that
  -- passes a wake-up on, and the two that are seen
  split at hs <;> first
    | exact absurd ha Bool.false_ne_true
    | (cases hs; exact .goes (here ‹_›) rfl rfl nofun)
    | (cases hs; exact .goes (here ‹_›) rfl (by split <;> rfl) nofun)
    | (split at hs <;> cases hs; exact .goes (here ‹_›) rfl rfl nofun)
    | (cases hs; exact .abandons (here ‹_›) rfl nofun)
    | (split at hs <;> cases hs; exact .abandons (here ‹_›) rfl nofun)
    | (cases hs; exact .finishes (here ‹_›))
    | (cases hs; exact .leaves (here ‹_›))
    | cases hs

theorem aside_of_shutdownGoesOn {k : Nat} (hs : e.shutdownGoesOn k = some e') :
    Aside e (.shutdownGoesOn k) e' := by
  unfold shutdownGoesOn at hs
  split at hs
  · rename_i h
    cases hs
    exact .stops h
  · rename_i h
    cases hs
    exact .takesUp h
  · rename_i ws h
    split at hs
    · rename_i allEnded
      cases hs
      exact .returns h (List.all_eq_true.mp allEnded)
    · cases hs
  · cases hs

theorem aside_of_payWake (hs : e.payWake = some e') : Aside e .payWake e' := by
  unfold payWake at hs
  split at hs
  · cases hs
  · cases hs
    exact .wakes

/-- **These are all steps that do no work.** -/
theorem aside_of_step {a : Action} (hs : e.step? a = some e') (ha : a.isAside = true) :
    Aside e a e' := by
  cases a with
  | payWake => exact aside_of_payWake hs
  | start =>
    cases hs
    exact .start
  | stop =>
    cases hs
    exact .stop
  | shutdownBegins =>
    cases hs
    exact .begins
  | shutdownGoesOn k => exact aside_of_shutdownGoesOn hs
  | tick now =>
    cases hs
    exact .tick
  | worker i s =>
    obtain ⟨w, hw, hs⟩ := Option.bind_eq_some_iff.mp hs
    exact aside_of_workerStep hw hs ha
  | _ => cases ha

end Inversion

end Engine

end CodeInsight
