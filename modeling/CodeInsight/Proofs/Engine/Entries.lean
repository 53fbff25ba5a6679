import CodeInsight.Proofs.Engine.Hands

/-!
# The entries of the cache

* one step writes one entry, empties the cache, or leaves it as it is (`cache_of_step`);
* **the entry of a path is what was written for it last** since the cache was cleared
  (`Run.entry_eq`);
* only clearing opens an epoch (`epoch_of_step`), and a call that loads keeps the epoch in which it
  began (`loads_of_step`).
-/

namespace CodeInsight

/-- The epoch in which a call that loads began, as long as it has not returned. -/
def LoadPhase.epoch? : LoadPhase → Option Nat
  | begun epoch => some epoch
  | answered epoch _ => some epoch
  | returned _ => none

namespace Engine

/-! ## 1. One step -/

section Step

variable {e e' : Engine} {a : Action}

/-- A step aside writes nothing and clears nothing. -/
theorem wrote?_of_isAside (ha : a.isAside = true) :
    (Moment.mk e a).wrote? = none ∧ a.isClear = false := by
  cases a with
  | worker i s => cases s <;> first | exact ⟨rfl, rfl⟩ | cases ha
  | _ => first | exact ⟨rfl, rfl⟩ | cases ha

/-- **What a step does to the cache.** -/
theorem cache_of_step (hs : e.step? a = some e') :
    e'.cache = match (Moment.mk e a).wrote? with
      | some (path, insights) => e.cache.set path insights
      | none => if a.isClear then Table.empty else e.cache := by
  cases effect_of_step hs with
  | aside ha _ same _ =>
    obtain ⟨silent, kept⟩ := wrote?_of_isAside (e := e) ha
    rw [silent, kept, same.cache]
    rfl
  | @cached i b r h current =>
    have written : (Moment.mk e (.worker i .cache)).wrote? = some (b.path, r.insights) := by
      have h : e.phases[i]? = some _ := h
      simp [Moment.wrote?, h, current]
    rw [written]
    rfl
  | @notCached i b r h outdated =>
    have written : (Moment.mk e (.worker i .cache)).wrote? = none := by
      have h : e.phases[i]? = some _ := h
      simp [Moment.wrote?, h, outdated]
    rw [written]
    rfl
  | @emptied i b fault h current =>
    have written : (Moment.mk e (.worker i .refuse)).wrote? = some (b.path, []) := by
      have h : e.phases[i]? = some _ := h
      simp [Moment.wrote?, h, current]
    rw [written]
    rfl
  | @notEmptied i b fault h outdated =>
    have written : (Moment.mk e (.worker i .refuse)).wrote? = none := by
      have h : e.phases[i]? = some _ := h
      simp [Moment.wrote?, h, outdated]
    rw [written]
    rfl
  | @loadCached k path insights h =>
    have written : (Moment.mk e (.loadReturns k)).wrote? = some (path, insights) := by
      simp [Moment.wrote?, h]
    rw [written]
  | @loadNotCached k epoch path found insights _ h outdated =>
    have written : (Moment.mk e (.loadReturns k)).wrote? = none := by
      unfold Moment.wrote?
      simp only [h]
      cases found with
      | error => rfl
      | ok found =>
        cases found with
        | none => rfl
        | some is => simp [outdated is rfl]
    rw [written]
    rfl
  | @breakdown i s p _ h busy unsound =>
    have written : (Moment.mk e (.worker i s)).wrote? = none := by
      cases s <;> first | cases unsound | rfl
    rw [written]
    rfl
  | _ => rfl

/-- **Who writes into the cache**: a worker that is still in the epoch of its task, or a call that
    is still in the epoch in which it began and has found something. -/
theorem wrote?_cases {path : String} {insights : List Insight}
    (h : (Moment.mk e a).wrote? = some (path, insights)) :
    (∃ i s b, a = .worker i s ∧ e.hand? i = some b ∧ b.path = path ∧ e.epoch = b.epoch) ∨
      ∃ k, a = .loadReturns k ∧
        e.loads[k]? = some ⟨path, .answered e.epoch (.ok (some insights))⟩ := by
  have byWorker {i : Nat} {s : WorkerStep} {p : Phase} {b : Assignment} (hp : e.At i p)
      (hb : p.assignment? = some b) (current : e.epoch = b.epoch) :
      ∃ j s' c, Action.worker i s = .worker j s' ∧ e.hand? j = some c ∧ c.path = b.path ∧
        e.epoch = c.epoch :=
    ⟨i, s, b, rfl, (hand?_of_at hp).trans hb, rfl, current⟩
  unfold Moment.wrote? at h
  split at h
  · rename_i i ha
    cases ha
    split at h
    · rename_i b r at'
      split at h
      · rename_i current
        cases h
        exact .inl (byWorker (p := .announcing b r []) at' rfl current)
      · cases h
    · cases h
  · rename_i i ha
    cases ha
    split at h
    · rename_i b fault at'
      split at h
      · rename_i current
        cases h
        exact .inl (byWorker (p := .refusing b fault) at' rfl current)
      · cases h
    · cases h
  · rename_i k ha
    cases ha
    split at h
    · rename_i path' epoch found hk
      split at h
      · rename_i current
        cases h
        exact .inr ⟨k, rfl, by rw [current]; exact hk⟩
      · cases h
    · cases h
  · cases h

/-- Only clearing opens an epoch. -/
theorem epoch_of_step (hs : e.step? a = some e') :
    e'.epoch = if a.isClear then e.epoch + 1 else e.epoch := by
  cases effect_of_step hs with
  | aside ha _ same _ =>
    rw [(wrote?_of_isAside (e := e) ha).2, same.epoch]
    rfl
  | _ => rfl

/-- An element is where it was, unless it is the one that is set. -/
theorem getElem?_set_cases {α : Type} {l : List α} {n k : Nat} {x y : α}
    (h : (l.set n x)[k]? = some y) : l[k]? = some y ∨ n = k ∧ x = y := by
  rw [List.getElem?_set] at h
  split at h
  · rename_i hn
    split at h
    · exact .inr ⟨hn, Option.some.inj h⟩
    · cases h
  · exact .inl h

/-- A call that loads keeps the epoch in which it began. -/
theorem loads_of_step (hs : e.step? a = some e') {k epoch : Nat} {path : String}
    {phase : LoadPhase} (h : e'.loads[k]? = some ⟨path, phase⟩)
    (hp : phase.epoch? = some epoch) :
    (∃ before, e.loads[k]? = some ⟨path, before⟩ ∧ before.epoch? = some epoch) ∨
      a = .loadBegins path ∧ k = e.loads.length ∧ epoch = e.epoch := by
  cases effect_of_step hs with
  | aside _ _ same _ =>
    rw [same.loads] at h
    exact .inl ⟨phase, h, hp⟩
  | loadBegins =>
    have h : (e.loads ++ [_])[k]? = some _ := h
    rw [List.getElem?_append] at h
    split at h
    · exact .inl ⟨phase, h, hp⟩
    · rename_i last
      obtain ⟨hk, hc⟩ := List.getElem?_eq_some_iff.mp h
      have hk : k = e.loads.length := by simp at hk; omega
      subst hk
      simp only [Nat.sub_self, List.getElem_cons_zero] at hc
      cases hc
      cases hp
      exact .inr ⟨rfl, rfl, rfl⟩
  | @loadAnswered n began _ fault found _ begun =>
    rcases getElem?_set_cases h with h | ⟨rfl, hc⟩
    · exact .inl ⟨phase, h, hp⟩
    · cases hc
      exact .inl ⟨_, begun, hp⟩
  | loadCached =>
    rcases getElem?_set_cases h with h | ⟨rfl, hc⟩
    · exact .inl ⟨phase, h, hp⟩
    · cases hc
      cases hp
  | loadNotCached =>
    rcases getElem?_set_cases h with h | ⟨rfl, hc⟩
    · exact .inl ⟨phase, h, hp⟩
    · cases hc
      cases hp
  | _ => exact .inl ⟨phase, h, hp⟩

end Step

/-! ## 2. Runs -/

section Run

variable {settings : Settings} {store : InsightStore} {isAdvised : Bool} {bus : EventBus}
variable {past : List Moment} {e : Engine}

theorem sinceClear_cons_of_isClear {m : Moment} (h : m.action.isClear = true) :
    sinceClear (m :: past) = [] := by
  simp [sinceClear, h]

theorem sinceClear_cons {m : Moment} (h : m.action.isClear = false) :
    sinceClear (m :: past) = m :: sinceClear past := by
  simp [sinceClear, h]

/-- Moments in which the cache was not cleared are since it was cleared. -/
theorem sinceClear_append {m : Moment} {later before : List Moment}
    (uncleared : ∀ m' ∈ later, m'.action.isClear = false) (kept : m.action.isClear = false) :
    sinceClear (later ++ m :: before) = later ++ m :: sinceClear before := by
  induction later with
  | nil => exact sinceClear_cons kept
  | cons n later ih =>
    obtain ⟨hn, rest⟩ := List.forall_mem_cons.mp uncleared
    rw [List.cons_append, sinceClear_cons hn, ih rest]
    rfl

theorem isClear_of_wrote? {m : Moment} {w : String × List Insight} (h : m.wrote? = some w) :
    m.action.isClear = false := by
  obtain ⟨e, a⟩ := m
  cases a with
  | clear => cases h
  | _ => rfl

/-- What is before a moment since the cache was cleared is since the cache was cleared. -/
theorem of_sinceClear_eq {m : Moment} {later before : List Moment}
    (h : sinceClear past = later ++ m :: before) :
    ∃ early, past = later ++ m :: early ∧ sinceClear early = before := by
  induction later generalizing past with
  | nil =>
    cases past with
    | nil => cases h
    | cons n early =>
      cases hn : n.action.isClear with
      | true => rw [sinceClear_cons_of_isClear hn] at h; cases h
      | false =>
        rw [sinceClear_cons hn] at h
        cases h
        exact ⟨early, rfl, rfl⟩
  | cons l later ih =>
    cases past with
    | nil => cases h
    | cons n early =>
      cases hn : n.action.isClear with
      | true => rw [sinceClear_cons_of_isClear hn] at h; cases h
      | false =>
        rw [sinceClear_cons hn, List.cons_append] at h
        obtain ⟨rfl, rest⟩ := List.cons.inj h
        obtain ⟨earlier, rfl, hb⟩ := ih rest
        exact ⟨earlier, rfl, hb⟩

theorem wrote?_of_wroteFor? {m : Moment} {path : String} {insights : List Insight}
    (h : m.wroteFor? path = some insights) : m.wrote? = some (path, insights) := by
  obtain ⟨w, hw, own⟩ := Option.bind_eq_some_iff.mp h
  split at own
  · rename_i hpath
    cases own
    rw [hw, ← hpath]
  · cases own

/-- **The entry of a path is what was written for it last** since the cache was cleared. -/
theorem Run.entry_eq (h : Run (built settings store isAdvised bus) past e) (path : String) :
    e.cache.get? path = (sinceClear past).findSome? (·.wroteFor? path) := by
  induction h with
  | start => rfl
  | @step past e e' a h hs ih =>
    have wrote : (Moment.mk e a).wroteFor? path = (Moment.mk e a).wrote?.bind fun w =>
        if w.1 = path then some w.2 else none := rfl
    rw [cache_of_step hs]
    cases written : (Moment.mk e a).wrote? with
    | some w =>
      have kept : a.isClear = false := isClear_of_wrote? written
      rw [sinceClear_cons kept, List.findSome?_cons, wrote, written]
      dsimp only [Option.bind_some]
      by_cases own : w.1 = path
      · rw [if_pos own, ← own, Table.get?_set_self]
      · rw [if_neg own, Table.get?_set_ne _ _ (Ne.symm own)]
        exact ih
    | none =>
      cases kept : a.isClear with
      | true => rw [sinceClear_cons_of_isClear kept]; rfl
      | false =>
        rw [sinceClear_cons kept, List.findSome?_cons, wrote, written]
        exact ih

end Run

end Engine

end CodeInsight
