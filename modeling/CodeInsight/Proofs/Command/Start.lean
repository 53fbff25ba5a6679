import CodeInsight.Command.Run
import CodeInsight.Proofs.Engine.Files
import CodeInsight.Proofs.Engine.Shutdown

/-!
# The engine that has taken up files

* while files are taken up one after the other nobody works and nothing is told of (`Gathered`), and
  the files that wait are those taken up so far, each once (`Gathered.request`);
* the engine that was then started (`started_engineFor`) has one worker, which waits for the slot,
  and its account of files begins with all of them waiting (`Started.books`);
* otherwise it is as it was built (`justStarted_engineFor`).
-/

namespace CodeInsight

namespace Engine

variable {e e' : Engine} {files : List String}

/-! ## 1. Taking files up -/

/-- Files were taken up, and nobody works yet. -/
structure Gathered (files : List String) (e : Engine) : Prop where
  workers : e.workers = []
  latest : e.latest = none
  loop : e.loop = {}
  bus : e.bus = {}
  events : e.events = []
  waiting : e.waitingFiles.Perm files

/-- A request changes the queue, owes a wake-up and tells of nothing. -/
theorem request_eq (e : Engine) (path : String) (priority : Priority) (kind : TaskKind) :
    ∃ hs, Silent hs ∧ (e.request path priority kind).2 =
      { e with
        queue := (e.queue.enqueue e.now path priority kind).2
        wakesOwed := e.wakesOwed + 1
        history := hs ++ e.history } := by
  have silent : Silent (.requested (e.queue.enqueue e.now path priority kind).1 ::
      ((e.queue.find? path).toList.map .replaced).reverse) :=
    .cons rfl (silent_map_reverse .replaced (fun _ => rfl) _)
  refine ⟨_, silent, ?_⟩
  simp only [request, foldl_record]
  rfl

/-- While nobody works, a wake-up that is owed can be paid and is kept. -/
theorem payWake_of_nobody {n : Nat} (h : e.workers = []) (owed : e.wakesOwed = n + 1) :
    e.payWake = some { e with wakesOwed := n, wakeKept := true } := by
  have nobody : (e.workers.findIdx? fun w => w.phase.isAsleep) = none := by rw [h]; rfl
  simp only [payWake, owed, wakeOne, nobody]

/-- While nobody works, a file that is taken up changes the queue, leaves a wake-up behind and is
    told of to nobody. -/
theorem takeUp?_eq (nobody : e.workers = []) (priority : Priority) (path : String) :
    ∃ hs, Silent hs ∧ e.takeUp? priority path = (e.queue.nextTime? e.now).map fun _ =>
      { e with
        queue := (e.queue.enqueue e.now path priority .full).2
        wakeKept := true
        history := hs ++ e.history } := by
  obtain ⟨hs, silent, asked⟩ := e.request_eq path priority .full
  refine ⟨hs, silent, ?_⟩
  have paid := payWake_of_nobody (e := { e with
    queue := (e.queue.enqueue e.now path priority .full).2
    wakesOwed := e.wakesOwed + 1
    history := hs ++ e.history }) nobody rfl
  unfold takeUp?
  rw [asked, paid]
  cases e.queue.nextTime? e.now <;> rfl

/-- A request for a file that does not wait queues a task for it. -/
theorem paths_enqueue {q : TaskQueue} {path : String} (new : path ∉ q.tasks.map (·.path))
    (clock : Instant) (priority : Priority) (kind : TaskKind) :
    ((q.enqueue clock path priority kind).2.tasks.map (·.path)).Perm
      (path :: q.tasks.map (·.path)) := by
  have other (t : Task) (there : t ∈ q.tasks) : ¬ (t.path == path) = true := by
    intro same
    exact new (List.mem_map.mpr ⟨t, there, beq_iff_eq.mp same⟩)
  have kept : (q.remove path).2.tasks = q.tasks := List.eraseP_of_forall_not other
  simp only [TaskQueue.enqueue]
  rw [kept]
  exact TaskQueue.paths_insert _ _

/-- **A file that is taken up waits** besides those taken up before. -/
theorem Gathered.takeUp? (h : Gathered files e) {path : String} (new : path ∉ files)
    {priority : Priority} (taken : e.takeUp? priority path = some e') :
    Gathered (path :: files) e' := by
  have unknown : path ∉ e.waitingFiles := fun there => new (h.waiting.mem_iff.mp there)
  obtain ⟨hs, silent, same⟩ := takeUp?_eq h.workers priority path
  obtain ⟨-, -, rfl⟩ := Option.map_eq_some_iff.mp (same.symm.trans taken)
  refine ⟨h.workers, h.latest, h.loop, h.bus, ?_, ?_⟩
  · exact (events_of_silent hs rfl silent).trans h.events
  · exact (paths_enqueue unknown _ _ _).trans (h.waiting.cons path)

/-- Files taken up one after the other. -/
theorem Gathered.foldlM {priority : Priority} :
    ∀ {more files : List String} {e : Engine}, Gathered files e → (more ++ files).Nodup →
      more.foldlM (Engine.takeUp? priority) e = some e' →
        ∃ all, all.Perm (more ++ files) ∧ Gathered all e'
  | [], files, e, h, _, done => ⟨files, .refl _, by cases done; exact h⟩
  | path :: more, files, e, h, distinct, done => by
    obtain ⟨new, rest⟩ := List.nodup_cons.mp distinct
    rw [List.foldlM_cons] at done
    obtain ⟨next, taken, done⟩ := Option.bind_eq_some_iff.mp done
    have gathered := h.takeUp? (fun there => new (List.mem_append_right _ there)) taken
    have apart : (more ++ path :: files).Nodup := List.perm_middle.nodup_iff.mpr distinct
    obtain ⟨all, same, gathered⟩ := gathered.foldlM apart done
    exact ⟨all, same.trans List.perm_middle, gathered⟩

/-- Files that are taken up change the queue, leave a wake-up behind, and are told of. -/
theorem foldlM_takeUp?_eq {priority : Priority} :
    ∀ {files : List String} {e : Engine},
      files.foldlM (Engine.takeUp? priority) e = some e' → e.workers = [] →
        ∃ queue kept history,
          e' = { e with queue := queue, wakeKept := kept, history := history }
  | [], e, done, _ => ⟨e.queue, e.wakeKept, e.history, by cases done; rfl⟩
  | path :: files, e, done, nobody => by
    rw [List.foldlM_cons] at done
    obtain ⟨next, taken, done⟩ := Option.bind_eq_some_iff.mp done
    obtain ⟨hs, -, same⟩ := takeUp?_eq nobody priority path
    obtain ⟨-, -, rfl⟩ := Option.map_eq_some_iff.mp (same.symm.trans taken)
    obtain ⟨queue, kept, history, all⟩ := foldlM_takeUp?_eq done nobody
    exact ⟨queue, kept, history, all⟩

/-- By what the clock says and by the time of the latest request, so many seconds are left. -/
def SecondsLeft (n : Nat) (e : Engine) : Prop :=
  e.now.second + n ≤ Instant.last ∧ ∀ t ∈ e.queue.lastTime, t.second + n ≤ Instant.last

/-- If a second is left there is a time for a request, not more than a second on. -/
theorem SecondsLeft.nextTime? {n : Nat} (h : SecondsLeft (n + 1) e) :
    ∃ t, e.queue.nextTime? e.now = some t ∧ t.second + n ≤ Instant.last := by
  obtain ⟨clock, latest⟩ := h
  unfold TaskQueue.nextTime?
  cases hl : e.queue.lastTime with
  | none => exact ⟨e.now, rfl, by omega⟩
  | some last =>
    have left := latest last hl
    dsimp only
    split
    · obtain ⟨t, next, soon⟩ := Instant.exists_nextMicro? (t := last) (by omega)
      exact ⟨t, next, by omega⟩
    · exact ⟨e.now, rfl, by omega⟩

/-- **Files can be taken up** if for each of them a second is left. -/
theorem exists_foldlM_takeUp? (priority : Priority) :
    ∀ (files : List String) {e : Engine}, e.workers = [] → SecondsLeft files.length e →
      ∃ e', files.foldlM (Engine.takeUp? priority) e = some e'
  | [], e, _, _ => ⟨e, rfl⟩
  | path :: files, e, nobody, left => by
    obtain ⟨t, next, soon⟩ := left.nextTime?
    obtain ⟨hs, -, same⟩ := takeUp?_eq nobody priority path
    rw [next] at same
    have latest : ∀ t' ∈ (e.queue.enqueue e.now path priority .full).2.lastTime,
        t'.second + files.length ≤ Instant.last := by
      rintro _ ⟨⟩
      rw [TaskQueue.nextTime, next]
      exact soon
    have clock : e.now.second + files.length ≤ Instant.last := by
      have := left.1
      rw [List.length_cons] at this
      omega
    obtain ⟨e', done⟩ := exists_foldlM_takeUp? priority files (e := { e with
      queue := (e.queue.enqueue e.now path priority .full).2
      wakeKept := true
      history := hs ++ e.history }) nobody ⟨clock, latest⟩
    exact ⟨e', by rw [List.foldlM_cons, same]; exact done⟩

/-! ## 2. Starting -/

/-- The engine was started with files that wait. -/
structure Started (files : List String) (e : Engine) : Prop where
  workers : e.workers = [{}]
  loop : e.loop = {}
  bus : e.bus = {}
  events : e.events = []
  waiting : e.waitingFiles.Perm files

theorem Gathered.start (h : Gathered files e) : Started files e.start := by
  have stands : e.isRunning = false := by
    rw [isRunning, h.latest]
    rfl
  have started : e.start = { e with
      workers := e.workers ++ [{}]
      handles := (e.handles.filter fun i => !e.hasEnded i) ++ [e.workers.length]
      latest := some e.workers.length } := by
    rw [Engine.start, stands]
    rfl
  rw [started]
  exact ⟨by rw [h.workers]; rfl, h.loop, h.bus, h.events, h.waiting⟩

/-- **The account of files begins with all of them waiting.** -/
theorem Started.books (h : Started files e) : Books files e := by
  have phases : e.phases = [.queueing] := by
    rw [phases, h.workers]
    rfl
  have queueing {i : Nat} {p : Phase} (hp : e.At i p) : p = .queueing := by
    rw [At, phases] at hp
    exact List.mem_singleton.mp (List.mem_of_getElem? hp)
  refine ⟨?_, ?_, ⟨by rw [h.bus], by rw [h.bus, h.events]; rfl⟩, ?_, ?_⟩
  · intro i j p q hp _ slot
    rw [queueing hp] at slot
    cases slot
  · intro i b hb
    obtain ⟨p, hp, hpb⟩ := at_of_hand? hb
    rw [queueing hp] at hpb
    cases hpb
  · have none : e.openFiles = [] := by
      rw [openFiles, phases]
      rfl
    rw [none, h.events, List.append_nil]
    show (e.waitingFiles ++ []).Perm files
    rw [List.append_nil]
    exact h.waiting
  · intro _ event last
    rw [h.events] at last
    cases last

/-- The engine as it was built, but for files that were taken up, with its first worker. -/
structure JustStarted (store : InsightStore) (e : Engine) : Prop where
  store : e.store = store
  phases : e.phases = [.queueing]
  shutdowns : e.shutdowns = []
  forgotten : e.NoneForgotten

end Engine

namespace Workplace

variable {s : Workplace} {settings : Settings} {store : InsightStore} {files : List String}
variable {priority : Priority} {e : Engine}

/-- **The engine with which files are analysed** was started with all of them waiting. -/
theorem started_engineFor (built : s.engineFor settings store files priority = some e)
    (distinct : files.Nodup) : Engine.Started files e := by
  obtain ⟨gathered, done, rfl⟩ := Option.map_eq_some_iff.mp built
  have nothing : Engine.Gathered []
      ({ settings, store, isAdvised := true, now := s.now, serial := s.serial } : Engine) :=
    ⟨rfl, rfl, rfl, rfl, rfl, .refl _⟩
  have apart : (files ++ []).Nodup := by
    rw [List.append_nil]
    exact distinct
  obtain ⟨all, same, gathered⟩ := nothing.foldlM apart done
  rw [List.append_nil] at same
  have started := gathered.start
  exact ⟨started.workers, started.loop, started.bus, started.events, started.waiting.trans same⟩

/-- **It keeps insights where it was told to**, and nobody waits for its one worker yet. -/
theorem justStarted_engineFor (built : s.engineFor settings store files priority = some e) :
    Engine.JustStarted store e := by
  obtain ⟨gathered, done, rfl⟩ := Option.map_eq_some_iff.mp built
  obtain ⟨queue, kept, history, rfl⟩ := Engine.foldlM_takeUp?_eq done rfl
  let e : Engine := { settings, store, isAdvised := true, now := s.now, serial := s.serial }
  have nobody : Engine.NoneForgotten { e with queue, wakeKept := kept, history } :=
    fun _ => .inl rfl
  exact ⟨rfl, rfl, rfl, nobody.step (.start rfl)⟩

/-- **Files can be analysed** at a time after which for each of them a second is left. -/
theorem exists_engineFor (s : Workplace) (settings : Settings) (store : InsightStore)
    (files : List String) (priority : Priority)
    (left : s.now.second + files.length ≤ Instant.last) :
    ∃ e, s.engineFor settings store files priority = some e := by
  obtain ⟨e, done⟩ := Engine.exists_foldlM_takeUp? priority files
    (e := { settings, store, isAdvised := true, now := s.now, serial := s.serial }) rfl
    ⟨left, fun t there => absurd there (Option.not_mem_none t)⟩
  exact ⟨e.start, by rw [engineFor, done]; rfl⟩

end Workplace

end CodeInsight
