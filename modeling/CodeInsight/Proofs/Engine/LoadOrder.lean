import CodeInsight.Proofs.Engine.Entries
import CodeInsight.Proofs.Store.Frame

/-!
# Loading and the order of runs

* what the store gives for a path is what the last save left that shares its record
  (`Run.left_since_save`), and a call that loads has it from the moment in which the store was read
  (`Run.answered`);
* **the entry of a path is never older than a run that has written it**, unless a call has loaded
  since then, and then it is what the store had when the call read it (`Run.entry_since`);
* a call that loads is kept from writing what it read only by a clearing of the cache. So **it can
  overtake a run**: it reads the store, a run writes its result and saves it, and then the call
  writes over it what it had read (`load_overtakes`), which is an update lost;
* a call that loads after a run that failed brings back what an earlier run had saved
  (`load_brings_back`), since nothing newer is in the store.
-/

namespace CodeInsight

/-- A moment that saved for a path, or for one that shares its record, has left for it what the
    store gives right after the save. -/
def Moment.Left (m : Moment) (path : String)
    (given : Except StoreFault (Option (List Insight)) × List LogLine) : Prop :=
  ∃ q insights, m.saved? = some (q, insights) ∧ m.engine.store.Shares path q ∧
    given = (m.engine.store.save q insights m.engine.now).2.load path

/-- In memory what is left for a path is what was saved for it. -/
theorem Moment.Left.memory {m : Moment} {path : String}
    {given : Except StoreFault (Option (List Insight)) × List LogLine} (h : m.Left path given)
    {table : Table (List Insight)} (hm : m.engine.store = .memory table) :
    ∃ insights, m.saved? = some (path, insights) ∧ given = (.ok (some insights), []) := by
  obtain ⟨q, insights, saved, shared, rfl⟩ := h
  rw [hm] at shared ⊢
  cases shared
  exact ⟨insights, saved, InsightStore.load_save_memory table _ _⟩

/-- Where insights come from that a moment wrote for a path, after other moments, the latest
    first. -/
inductive Source (path : String) (insights : List Insight) (w : Moment)
    (earlier : List Moment) : Prop where
  /-- From a run. -/
  | run (b : Assignment) (worked : w.hand? = some b) (about : b.path = path)
  /-- From a call that loads. What it read in the store was left there by the latest save before. -/
  | load (k : Nat) (l : Moment) (between first : List Moment) (returns : w.action = .loadReturns k)
      (split : earlier = between ++ l :: first) (answered : l.action = .loadAnswered k none)
      (found : (l.engine.store.load path).1 = .ok (some insights))
      (since : ∀ mid d early saved, first = mid ++ d :: early → d.saved? = some (path, saved) →
        ∃ m ∈ mid ++ [d], m.Left path (l.engine.store.load path))

namespace Engine

/-! ## 1. What the store keeps -/

section Store

variable {e₀ e e' : Engine} {a : Action} {past : List Moment}

/-- A step leaves what is loaded for a path, or saves for one that shares its record. -/
theorem load_of_step (hs : e.step? a = some e') (path : String) :
    e'.store.load path = e.store.load path ∨ (Moment.mk e a).Left path (e'.store.load path) := by
  cases effect_of_step hs with
  | aside _ _ same _ => exact .inl (by rw [same.store])
  | @saved i b insights store h done =>
    have written : (Moment.mk e (.worker i (.save .tried))).saved? = some (b.path, insights) := by
      have h : e.phases[i]? = some _ := h
      simp [Moment.saved?, h, done]
    by_cases shared : e.store.Shares path b.path
    · exact .inr ⟨b.path, insights, written, shared, by rw [done]; rfl⟩
    · left
      have kept := InsightStore.load_save insights e.now (.inl shared)
      rw [done] at kept
      exact kept
  | @notSaved i b insights outcome store _ h failed =>
    left
    rcases failed with same | ⟨cause, failed⟩
    · exact congrArg (InsightStore.load · path) same
    · have notDone : (e.store.save b.path insights e.now).1 ≠ .ok () := by
        rw [failed]
        exact nofun
      have kept := InsightStore.load_save (p := path) _ _ (.inr notDone)
      rw [failed] at kept
      exact kept
  | _ => exact .inl rfl

/-- The store after a save. -/
theorem store_of_saved (hs : e.step? a = some e') {q : String} {insights : List Insight}
    (saved : (Moment.mk e a).saved? = some (q, insights)) :
    e'.store = (e.store.save q insights e.now).2 := by
  unfold Moment.saved? at saved
  split at saved
  · rename_i i ha
    cases ha
    split at saved
    · rename_i b _ at'
      split at saved
      · rename_i done
        cases saved
        have here : e.At i (.saving b insights) := at'
        obtain ⟨w, hw, hp⟩ := at_iff.mp here
        have done : (e.store.save b.path insights e.now).1 = .ok () := done
        have step : e.step? (.worker i (.save .tried)) =
            some (e.saveInsights i b.path insights .tried) := by
          simp [step?, hw, workerStep?, hp]
        cases step.symm.trans hs
        unfold saveInsights
        dsimp only
        split
        · rename_i store saved
          rw [saved]
          rfl
        · rename_i cause store failed
          rw [failed] at done
          cases done
      · cases saved
    · cases saved
  · cases saved

/-- What is loaded for a path is what it was, or what a moment of the run has left. -/
theorem Run.load_eq (h : Run e₀ past e) (path : String) :
    e.store.load path = e₀.store.load path ∨ ∃ m ∈ past, m.Left path (e.store.load path) := by
  induction h with
  | start => exact .inl rfl
  | @step past e e' a h hs ih =>
    rcases load_of_step hs path with same | left'
    · rw [same]
      exact ih.imp id fun ⟨m, hm, left'⟩ => ⟨m, List.mem_cons_of_mem _ hm, left'⟩
    · exact .inr ⟨⟨e, a⟩, List.mem_cons_self, left'⟩

/-- **After a save for a path the store gives what it left**, or what a later one left. -/
theorem Run.left_since_save {mid early : List Moment} {d : Moment} {path : String}
    {saved : List Insight} (h : Run e₀ (mid ++ d :: early) e)
    (hd : d.saved? = some (path, saved)) :
    ∃ m ∈ mid ++ [d], m.Left path (e.store.load path) := by
  obtain ⟨e₁, -, hs, after⟩ := h.cut
  rcases after.load_eq path with same | ⟨m, hm, left'⟩
  · refine ⟨d, List.mem_append_right _ (List.mem_singleton_self _), path, saved, hd,
      InsightStore.shares_self _ _, ?_⟩
    rw [same, store_of_saved hs hd]
  · exact ⟨m, List.mem_append_left _ hm, left'⟩

/-! ## 2. Calls that load -/

/-- What a call that loads was answered by the store, unless it could not be used. -/
def answerOf (store : InsightStore) (path : String) :
    Option StoreFault → Except StoreFault (Option (List Insight))
  | some fault => .error fault
  | none => (store.load path).1

/-- A call has its answer from before, or is answered just now. -/
theorem answered_of_step (hs : e.step? a = some e') {k epoch : Nat} {path : String}
    {found : Except StoreFault (Option (List Insight))}
    (h : e'.loads[k]? = some ⟨path, .answered epoch found⟩) :
    e.loads[k]? = some ⟨path, .answered epoch found⟩ ∨
      ∃ fault, a = .loadAnswered k fault ∧ found = answerOf e.store path fault := by
  cases effect_of_step hs with
  | aside _ _ same _ =>
    rw [same.loads] at h
    exact .inl h
  | loadBegins =>
    have h : (e.loads ++ [_])[k]? = some _ := h
    rw [List.getElem?_append] at h
    split at h
    · exact .inl h
    · have new := List.mem_singleton.mp (List.mem_of_getElem? h)
      cases new
  | @loadAnswered n _ _ fault _ _ _ answer =>
    rcases getElem?_set_cases h with h | ⟨rfl, hc⟩
    · exact .inl h
    · cases hc
      refine .inr ⟨fault, rfl, ?_⟩
      rw [answer]
      cases fault <;> rfl
  | loadCached | loadNotCached =>
    rcases getElem?_set_cases h with h | ⟨rfl, hc⟩
    · exact .inl h
    · cases hc
  | _ => exact .inl h

end Store

section Run

variable {settings : Settings} {store : InsightStore} {isAdvised : Bool} {bus : EventBus}
variable {past : List Moment} {e : Engine}

/-- **A call that was answered has what the store gave** in one of the moments before. -/
theorem Run.answered (h : Run (built settings store isAdvised bus) past e) {k epoch : Nat}
    {path : String} {found : Except StoreFault (Option (List Insight))}
    (hk : e.loads[k]? = some ⟨path, .answered epoch found⟩) :
    ∃ later l before fault, past = later ++ l :: before ∧ l.action = .loadAnswered k fault ∧
      found = answerOf l.engine.store path fault := by
  induction h with
  | start => cases hk
  | @step past e e' a h hs ih =>
    rcases answered_of_step hs hk with before | ⟨fault, rfl, answer⟩
    · obtain ⟨later, l, first, fault, rfl, answered, answer⟩ := ih before
      exact ⟨⟨e, a⟩ :: later, l, first, fault, rfl, answered, answer⟩
    · exact ⟨[], ⟨e, _⟩, past, fault, rfl, rfl, answer⟩

/-- What a moment wrote for a path comes from a run or from a call that loads. -/
theorem Run.source (h : Run (built settings store isAdvised bus) past e) {a : Action}
    {path : String} {insights : List Insight}
    (written : (Moment.mk e a).wrote? = some (path, insights)) :
    Source path insights ⟨e, a⟩ past := by
  rcases wrote?_cases written with ⟨i, s, b, rfl, hand, about, -⟩ | ⟨k, rfl, hk⟩
  · exact .run b hand about
  · obtain ⟨between, l, first, fault, rfl, answered, answer⟩ := h.answered hk
    cases fault with
    | some fault => cases answer
    | none =>
      refine .load k l between first rfl rfl answered answer.symm ?_
      rintro mid d early saved rfl hd
      obtain ⟨e₁, reading, -, -⟩ := h.cut
      exact reading.left_since_save hd

/-- **The entry of a path is what was written for it last**, in the moment given or after it, as
    long as the cache was not cleared since. It comes from a run, that one or a later one, or from a
    call that has loaded since; a call that reads the store after a save for the path never has
    anything older than that save. -/
theorem Run.entry_since (h : Run (built settings store isAdvised bus) past e)
    {later before : List Moment} {m : Moment} {path : String} {insights : List Insight}
    (hpast : past = later ++ m :: before) (written : m.wroteFor? path = some insights)
    (uncleared : ∀ m' ∈ later, m'.action.isClear = false) :
    ∃ newer w older, later ++ [m] = newer ++ w :: older ∧
      w.wroteFor? path = some (e.insights path) ∧ (∀ m' ∈ newer, m'.wroteFor? path = none) ∧
        Source path (e.insights path) w (older ++ before) := by
  have kept : m.action.isClear = false := isClear_of_wrote? (wrote?_of_wroteFor? written)
  have since : sinceClear past = later ++ m :: sinceClear before := by
    rw [hpast]
    exact sinceClear_append uncleared kept
  have entry := h.entry_eq path
  rw [since, List.append_cons, List.findSome?_append] at entry
  have there : ((later ++ [m]).findSome? (·.wroteFor? path)).isSome = true := by
    rw [List.findSome?_isSome_iff]
    exact ⟨m, List.mem_append_right _ (List.mem_singleton_self _), by rw [written]; rfl⟩
  obtain ⟨last, hlast⟩ := Option.isSome_iff_exists.mp there
  rw [hlast, Option.some_or] at entry
  have shown : e.insights path = last := by
    rw [Engine.insights, InsightCache.insights, entry]
    rfl
  rw [shown]
  obtain ⟨newer, w, older, split, wrote, silent⟩ := List.findSome?_eq_some_iff.mp hlast
  refine ⟨newer, w, older, split, wrote, silent, ?_⟩
  have whole : past = newer ++ w :: (older ++ before) := by
    rw [hpast, List.append_cons, split]
    simp
  rw [whole] at h
  obtain ⟨e₁, run, -, -⟩ := h.cut
  exact run.source (wrote?_of_wroteFor? wrote)

end Run

/-! ## 3. What loading brings back -/

/-- The entry of a path has been taken back behind a run: the run wrote something else at `m`, which
    lies between `before` and `later`, nothing was cleared and no run has written since, and yet the
    entry is what a run had written before. -/
structure TakenBack (path : String) (e : Engine) (later : List Moment) (m : Moment)
    (before : List Moment) : Prop where
  ran : m.hand?.isSome = true
  wrote : (m.wroteFor? path).isSome = true
  lost : m.wroteFor? path ≠ some (e.insights path)
  since : ∀ m' ∈ later, m'.action.isClear = false ∧
    (m'.hand?.isSome = true → m'.wroteFor? path = none)
  earlier : ∃ m' ∈ before, m'.hand?.isSome = true ∧ m'.wroteFor? path = some (e.insights path)

instance (path : String) (e : Engine) (later : List Moment) (m : Moment) (before : List Moment) :
    Decidable (TakenBack path e later m before) :=
  decidable_of_iff (m.hand?.isSome = true ∧ (m.wroteFor? path).isSome = true ∧
      m.wroteFor? path ≠ some (e.insights path) ∧
      (∀ m' ∈ later, m'.action.isClear = false ∧
        (m'.hand?.isSome = true → m'.wroteFor? path = none)) ∧
      ∃ m' ∈ before, m'.hand?.isSome = true ∧ m'.wroteFor? path = some (e.insights path))
    ⟨fun ⟨ran, wrote, lost, since, earlier⟩ => ⟨ran, wrote, lost, since, earlier⟩,
      fun h => ⟨h.ran, h.wrote, h.lost, h.since, h.earlier⟩⟩

/-- A file with a function of too many parameters. -/
def manyParameters : String := "function f(a, b, c, d, e, g) {}"

/-- A worker that has looked for a task takes one, finds the function and saves what it found. -/
def analysed : List Action :=
  [.worker 0 .look, .worker 0 .take, .worker 0 (.endReading (.content manyParameters)),
   .endJob 0 (.outline ⟨"a.ts", none, [⟨.function, "f", 1, 0, some manyParameters, false⟩], []⟩),
   .worker 0 .cache, .worker 0 (.advise none), .worker 0 .close, .worker 0 (.save .tried)]

/-- A file is analysed; then it cannot be read any more; then its insights are loaded. -/
def analysedLostLoaded : List Action :=
  [.request "a.ts" .medium .full, .start, .worker 0 .enterSlot] ++ analysed ++
  [.request "a.ts" .medium .full, .worker 0 .finish, .worker 0 .restOver, .worker 0 .look,
   .worker 0 .take, .worker 0 (.endReading (.fault .missing)), .worker 0 .refuse,
   .worker 0 .report, .loadBegins "a.ts", .loadAnswered 0 none, .loadReturns 0]

/-- A file is analysed, and a call that loads reads what was saved. Before it returns the file is
    analysed again, is empty by now, and what is found is saved. -/
def loadedAcross : List Action :=
  [.request "a.ts" .medium .full, .start, .worker 0 .enterSlot] ++ analysed ++
  [.loadBegins "a.ts", .loadAnswered 0 none,
   .request "a.ts" .medium .full, .worker 0 .finish, .worker 0 .restOver, .worker 0 .look,
   .worker 0 .take, .worker 0 (.endReading (.content "")),
   .endJob 1 (.outline ⟨"a.ts", none, [], []⟩), .worker 0 .cache, .worker 0 (.advise none),
   .worker 0 .close, .worker 0 (.save .tried), .loadReturns 0]

theorem split_of_getElem? {α : Type} {l : List α} {n : Nat} {x : α} (h : l[n]? = some x) :
    l = l.take n ++ x :: l.drop (n + 1) := by
  obtain ⟨hn, rfl⟩ := List.getElem?_eq_some_iff.mp h
  rw [← List.drop_eq_getElem_cons hn, List.take_append_drop]

theorem entry_since_analysis :
    ∃ past e later m before insights, Run (built default (.memory .empty) false {}) past e ∧
      past = later ++ m :: before ∧ m.wroteFor? "a.ts" = some insights ∧
      (∀ m' ∈ later, m'.action.isClear = false) ∧
      ∃ newer w older, later ++ [m] = newer ++ w :: older ∧
        w.wroteFor? "a.ts" = some (e.insights "a.ts") ∧
        (∀ m' ∈ newer, m'.wroteFor? "a.ts" = none) ∧
          Source "a.ts" (e.insights "a.ts") w (older ++ before) := by
  obtain ⟨⟨past, e⟩, ht, facts⟩ := Option.map_eq_some_iff.mp (show
    (trace? analysedLostLoaded ([], built default (.memory .empty) false {})).map (fun r =>
      ((r.1[14]?.bind (·.wroteFor? "a.ts")).isSome, (r.1.take 14).all (!·.action.isClear))) =
        some (true, true) by decide)
  obtain ⟨wrote, uncleared⟩ := Prod.mk.inj facts
  obtain ⟨insights, wrote⟩ := Option.isSome_iff_exists.mp wrote
  obtain ⟨m, hm, written⟩ := Option.bind_eq_some_iff.mp wrote
  have run := Run.start.of_trace? ht
  have uncleared : ∀ m' ∈ past.take 14, m'.action.isClear = false := by simpa using uncleared
  exact ⟨past, e, _, m, _, insights, run, split_of_getElem? hm, written, uncleared,
    run.entry_since (split_of_getElem? hm) written uncleared⟩

/-- A list of actions that can be done is a run, which is cut at one of its moments. -/
theorem exists_run_of_trace? {as : List Action} {n : Nat}
    {P : Engine → List Moment → Moment → List Moment → Prop}
    (h : ∃ r ∈ trace? as ([], built default (.memory .empty) false {}), ∃ m ∈ r.1[n]?,
      P r.2 (r.1.take n) m (r.1.drop (n + 1))) :
    ∃ past e later m before, Run (built default (.memory .empty) false {}) past e ∧
      past.map (·.action) = as.reverse ∧ past = later ++ m :: before ∧ P e later m before := by
  obtain ⟨⟨past, e⟩, ht, m, hm, holds⟩ := h
  refine ⟨past, e, _, m, _, Run.start.of_trace? ht, ?_, split_of_getElem? hm, holds⟩
  rw [actions_of_trace? ht, List.map_nil, List.append_nil]

/-- **A call that loads can overtake a run**: the run has found nothing and has saved that, and the
    entry is what the run before had found, which the call had read in the store before. -/
theorem load_overtakes :
    ∃ past e later m before, Run (built default (.memory .empty) false {}) past e ∧
      past.map (·.action) = loadedAcross.reverse ∧ past = later ++ m :: before ∧
      TakenBack "a.ts" e later m before ∧ m.wroteFor? "a.ts" = some [] ∧
      (∃ s ∈ later, s.saved? = some ("a.ts", [])) ∧
      (e.store.load "a.ts").1.toOption = some (some []) ∧ e.insights "a.ts" ≠ [] :=
  exists_run_of_trace? (n := 4) (by decide)

/-- A call that loads brings back what an earlier run had found: a run has failed and has emptied
    the entry, and the entry is what a run before it had written. -/
theorem load_brings_back :
    ∃ past e later m before, Run (built default (.memory .empty) false {}) past e ∧
      past.map (·.action) = analysedLostLoaded.reverse ∧ past = later ++ m :: before ∧
      TakenBack "a.ts" e later m before ∧ m.wroteFor? "a.ts" = some [] ∧ e.insights "a.ts" ≠ [] :=
  exists_run_of_trace? (n := 4) (by decide)

end Engine

end CodeInsight
