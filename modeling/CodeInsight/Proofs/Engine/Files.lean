import CodeInsight.Proofs.Engine.Outward

/-!
# What becomes of files

* while nobody asks for an analysis or drops one, and no collaborator breaks down
  (`Action.isOrderly`), a file waits, is open, or was told of to the end: `Handling` is what a step
  does to these three;
* `Books` is the account that a step keeps (`Books.step`): each file is in one of the three places,
  once;
* a quiet engine has no file that waits or is open (`Books.over_of_isQuiet`), and then nothing more
  is told of (`Over.step`).
-/

namespace CodeInsight

/-- Whether an action neither asks for an analysis nor drops one, and no collaborator breaks down
    with it. -/
def Action.isOrderly : Action → Bool
  | request .. | clear => false
  | a => a.isSound

/-- The file in hand, until it was told of to the end. -/
def Phase.openFile? : Phase → Option String
  | reading a | analysing a _ | announcing a _ _ | advising a _ _ | closing a _ _ | refusing a _
  | reporting a _ => some a.path
  | _ => none

/-- The files that events tell of to the end. -/
def endedFiles (events : List Event) : List String :=
  (events.filter (·.isTerminal)).map (·.path)

theorem endedFiles_append (events more : List Event) :
    endedFiles (events ++ more) = endedFiles events ++ endedFiles more := by
  simp [endedFiles]

theorem mem_endedFiles {events : List Event} {path : String} :
    path ∈ endedFiles events ↔ ∃ event ∈ events, event.isTerminal = true ∧ event.path = path := by
  simp [endedFiles, and_assoc]

namespace Engine

variable {e e' : Engine} {a : Action} {files : List String}

/-- The files that wait. -/
def waitingFiles (e : Engine) : List String := e.queue.tasks.map (·.path)

/-- The files that are open. -/
def openFiles (e : Engine) : List String := e.phases.filterMap Phase.openFile?

/-! ## 1. Open files -/

/-- What is picked from places that agree is the same. -/
theorem filterMap_of_getElem? {α β : Type} {f : α → Option β} :
    ∀ {l l' : List α}, (∀ i : Nat, l'[i]?.bind f = l[i]?.bind f) →
      l'.filterMap f = l.filterMap f
  | [], [], _ => rfl
  | [], y :: l', h => by
    have hy : f y = none := h 0
    rw [List.filterMap_cons_none hy]
    exact filterMap_of_getElem? fun i => h (i + 1)
  | x :: l, [], h => by
    have hx : f x = none := (h 0).symm
    rw [List.filterMap_cons_none hx]
    exact filterMap_of_getElem? fun i => h (i + 1)
  | x :: l, y :: l', h => by
    have same : f y = f x := h 0
    rw [List.filterMap_cons, List.filterMap_cons, same,
      filterMap_of_getElem? fun i => h (i + 1)]

theorem busy_of_openFile? {p : Phase} {path : String} (h : p.openFile? = some path) :
    p.assignment? ≠ none := by
  cases p <;> simp_all [Phase.openFile?, Phase.assignment?]

/-- What workers with tasks are picked by stays where the tasks stay. -/
theorem filterMap_of_sameWork {α : Type} {f : Phase → Option α}
    (busy : ∀ p x, f p = some x → p.assignment? ≠ none) (same : SameWork e e') :
    e'.phases.filterMap f = e.phases.filterMap f := by
  refine filterMap_of_getElem? fun i => Option.ext fun x => ?_
  rw [Option.bind_eq_some_iff, Option.bind_eq_some_iff]
  constructor
  · rintro ⟨p, hp, picked⟩
    exact ⟨p, (same.busy i p (busy p x picked)).mp hp, picked⟩
  · rintro ⟨p, hp, picked⟩
    exact ⟨p, (same.busy i p (busy p x picked)).mpr hp, picked⟩

theorem openFiles_of_sameWork (same : SameWork e e') : e'.openFiles = e.openFiles :=
  filterMap_of_sameWork (fun _ _ => busy_of_openFile?) same

section Move

variable {i : Nat} {p₀ p : Phase}

/-- A worker that moves changes in one place what is picked. -/
theorem filterMap_of_move {α : Type} (f : Phase → Option α)
    (moved : e'.phases = e.phases.set i p) (h : e.At i p₀) :
    ∃ l₁ l₂, e.phases.filterMap f = l₁ ++ (f p₀).toList ++ l₂ ∧
      e'.phases.filterMap f = l₁ ++ (f p).toList ++ l₂ := by
  obtain ⟨l₁, l₂, hl, hs⟩ := exists_split_set h
  have split (q : Phase) :
      (l₁ ++ q :: l₂).filterMap f = l₁.filterMap f ++ (f q).toList ++ l₂.filterMap f := by
    rw [List.filterMap_append, List.append_assoc]
    cases hq : f q with
    | none => rw [List.filterMap_cons_none hq]; rfl
    | some x => rw [List.filterMap_cons_some hq]; rfl
  refine ⟨l₁.filterMap f, l₂.filterMap f, ?_, ?_⟩
  · rw [hl, split]
  · rw [moved, hs, split]

theorem filterMap_of_goOn {α : Type} {f : Phase → Option α}
    (moved : e'.phases = e.phases.set i p) (h : e.At i p₀) (same : f p = f p₀) :
    e'.phases.filterMap f = e.phases.filterMap f := by
  obtain ⟨l₁, l₂, before, after⟩ := filterMap_of_move f moved h
  rw [after, before, same]

/-- A worker that moves changes what is open in one place. -/
theorem openFiles_of_move (moved : e'.phases = e.phases.set i p) (h : e.At i p₀) :
    ∃ l₁ l₂, e.openFiles = l₁ ++ p₀.openFile?.toList ++ l₂ ∧
      e'.openFiles = l₁ ++ p.openFile?.toList ++ l₂ :=
  filterMap_of_move Phase.openFile? moved h

theorem openFiles_of_goOn (moved : e'.phases = e.phases.set i p) (h : e.At i p₀)
    (same : p.openFile? = p₀.openFile?) : e'.openFiles = e.openFiles :=
  filterMap_of_goOn moved h same

/-- A worker comes to a file. -/
theorem openFiles_of_open (moved : e'.phases = e.phases.set i p) (h : e.At i p₀) {path : String}
    (closed : p₀.openFile? = none) (opened : p.openFile? = some path) :
    e'.openFiles.Perm (path :: e.openFiles) := by
  obtain ⟨l₁, l₂, before, after⟩ := openFiles_of_move moved h
  rw [after, before, closed, opened, List.append_assoc, Option.toList_none, List.append_nil]
  exact List.perm_middle

/-- A worker has done with a file. -/
theorem openFiles_of_close (moved : e'.phases = e.phases.set i p) (h : e.At i p₀) {path : String}
    (opened : p₀.openFile? = some path) (closed : p.openFile? = none) :
    e.openFiles.Perm (path :: e'.openFiles) := by
  obtain ⟨l₁, l₂, before, after⟩ := openFiles_of_move moved h
  rw [after, before, closed, opened, List.append_assoc, Option.toList_none, List.append_nil]
  exact List.perm_middle

end Move

/-! ## 2. What a step does to files -/

/-- **What a step does to files**: it leaves them where they are, opens the next one that waits,
    tells of an open one, or tells of one to the end. -/
inductive Handling (e e' : Engine) : Prop where
  | nothing (waiting : e'.waitingFiles = e.waitingFiles) (opened : e'.openFiles = e.openFiles)
      (told : e'.events = e.events)
  | opens (path : String) (waiting : e.waitingFiles = path :: e'.waitingFiles)
      (opened : e'.openFiles.Perm (path :: e.openFiles)) (told : e'.events = e.events)
  | mentions (event : Event) (waiting : e'.waitingFiles = e.waitingFiles)
      (opened : e'.openFiles = e.openFiles) (busy : e.openFiles ≠ [])
      (more : event.isTerminal = false) (told : e'.events = e.events ++ [event])
  | ends (event : Event) (waiting : e'.waitingFiles = e.waitingFiles)
      (opened : e.openFiles.Perm (event.path :: e'.openFiles))
      (last : event.isTerminal = true) (told : e'.events = e.events ++ [event])

section Step

variable {i : Nat} {p₀ p : Phase}

/-- A worker goes on with its file. -/
theorem Handling.goOn (moved : e'.phases = e.phases.set i p) (h : e.At i p₀)
    (same : p.openFile? = p₀.openFile?) (queue : e'.queue = e.queue)
    (told : e'.events = e.events) : Handling e e' :=
  .nothing (by rw [waitingFiles, queue]; rfl) (openFiles_of_goOn moved h same) told

/-- A worker tells of its file to the end. -/
theorem Handling.done (moved : e'.phases = e.phases.set i p) (h : e.At i p₀) {event : Event}
    (opened : p₀.openFile? = some event.path) (closed : p.openFile? = none)
    (queue : e'.queue = e.queue) (last : event.isTerminal = true)
    (told : e'.events = e.events ++ [event]) : Handling e e' :=
  .ends event (by rw [waitingFiles, queue]; rfl) (openFiles_of_close moved h opened closed) last
    told

theorem openFiles_ne_nil (h : e.At i p) {path : String} (hp : p.openFile? = some path) :
    e.openFiles ≠ [] :=
  List.ne_nil_of_mem (List.mem_filterMap.mpr ⟨p, List.mem_of_getElem? h, hp⟩)

end Step

/-- **Every step handles files in one of these ways**, if nobody asks for an analysis or drops
    one. -/
theorem handling_of_step (hs : e.step? a = some e') (orderly : a.isOrderly = true) :
    Handling e e' := by
  cases effect_of_step hs with
  | request | requestBreaksOff | clear => cases orderly
  | aside _ _ same _ =>
    exact .nothing (by rw [waitingFiles, same.queue]; rfl) (openFiles_of_sameWork same)
      (events_of_silent [] same.history rfl)
  | takeNothing h _ => exact .goOn (phases_move _ _ _) h rfl rfl (events_of_silent [] rfl rfl)
  | @take i t ts h head =>
    exact .opens t.path (by rw [waitingFiles, head]; rfl)
      (openFiles_of_open (phases_move _ _ _) h rfl rfl) (events_of_silent [_] rfl rfl)
  | loadBegins | jobLost => exact .nothing rfl rfl rfl
  | loadAnswered _ _ silent => exact .nothing rfl rfl (events_of_silent _ rfl silent)
  | loadNotCached _ _ silent => exact .nothing rfl rfl (events_of_silent _ rfl silent)
  | loadCached => exact .nothing rfl rfl (events_of_silent [_] rfl rfl)
  | content h => exact .goOn (phases_move _ _ _) h rfl rfl rfl
  | unreadable h silent =>
    exact .goOn (phases_move _ _ _) h rfl rfl (events_of_silent _ rfl silent)
  | outOfTime h hp silent =>
    refine .goOn (phases_move _ _ _) h ?_ rfl (events_of_silent _ rfl silent)
    rcases hp with rfl | ⟨job, rfl⟩ <;> rfl
  | announce h silent =>
    exact .mentions _ rfl (openFiles_of_goOn (phases_move _ _ _) h rfl) (openFiles_ne_nil h rfl)
      rfl (events_of_published rfl silent)
  | cached h => exact .goOn (phases_move _ _ _) h rfl rfl (events_of_silent [_] rfl rfl)
  | notCached h => exact .goOn (phases_move _ _ _) h rfl rfl rfl
  | advise h silent => exact .goOn (phases_move _ _ _) h rfl rfl (events_of_silent _ rfl silent)
  | @close i b r current bus hs h silent =>
    refine .done (phases_move _ _ _) h rfl ?_ rfl rfl (events_of_published rfl silent)
    cases current <;> rfl
  | saved h => exact .goOn (phases_move _ _ _) h rfl rfl (events_of_silent [_] rfl rfl)
  | notSaved h _ silent =>
    exact .goOn (phases_move _ _ _) h rfl rfl (events_of_silent _ rfl silent)
  | emptied h => exact .goOn (phases_move _ _ _) h rfl rfl (events_of_silent [_] rfl rfl)
  | notEmptied h => exact .goOn (phases_move _ _ _) h rfl rfl rfl
  | report h silent =>
    exact .done (phases_move _ _ _) h rfl rfl rfl rfl (events_of_published rfl silent)
  | breakdown _ _ unsound _ =>
    simp only [Action.isOrderly] at orderly
    rw [orderly] at unsound
    cases unsound
  | analysed _ _ waits => exact .goOn (phases_move _ _ _) (at_of_waiter? waits) rfl rfl rfl
  | notAnalysed waits silent =>
    exact .goOn (phases_move _ _ _) (at_of_waiter? waits) rfl rfl (events_of_silent _ rfl silent)

/-- **What a step does to files** leaves each of them in one of the three places. -/
theorem Handling.places (h : Handling e e')
    (places : (e.waitingFiles ++ e.openFiles ++ endedFiles e.events).Perm files) :
    (e'.waitingFiles ++ e'.openFiles ++ endedFiles e'.events).Perm files := by
  cases h with
  | nothing waiting opened told =>
    rw [waiting, opened, told]
    exact places
  | opens path waiting opened told =>
    refine List.Perm.trans ?_ places
    rw [waiting, told]
    refine List.Perm.append_right _ ?_
    exact (opened.append_left _).trans List.perm_middle
  | mentions event waiting opened _ more told =>
    have same : endedFiles [event] = [] := by simp [endedFiles, more]
    rw [waiting, opened, told, endedFiles_append, same, List.append_nil]
    exact places
  | ends event waiting opened last told =>
    have now : endedFiles [event] = [event.path] := by simp [endedFiles, last]
    refine List.Perm.trans (List.perm_iff_count.mpr fun path => ?_) places
    have moved := opened.count_eq path
    rw [waiting, told, endedFiles_append, now]
    simp only [List.count_append, List.count_cons, List.count_nil] at moved ⊢
    omega

/-! ## 3. The account -/

/-- **The account of files.** -/
structure Books (files : List String) (e : Engine) : Prop where
  one : e.OneInSlot
  seen : e.Seen
  streams : e.Streams
  /-- Each file waits, is open, or was told of to the end. -/
  places : (e.waitingFiles ++ e.openFiles ++ endedFiles e.events).Perm files
  /-- While no file is open, what was told of last was told of to the end. -/
  last : e.openFiles = [] → ∀ event, e.events.getLast? = some event → event.isTerminal = true

/-- **A step keeps the account.** -/
theorem Books.step (h : Books files e) (hs : e.step? a = some e') (orderly : a.isOrderly = true) :
    Books files e' := by
  have handling := handling_of_step hs orderly
  have one := (effect_of_step hs).walk.oneInSlot h.one
  have seen := h.seen.step h.one hs
  refine ⟨one, seen, h.streams.step hs, handling.places h.places, ?_⟩
  cases handling with
  | nothing waiting opened told =>
    rw [opened, told]
    exact h.last
  | opens path waiting opened told =>
    intro none
    rw [none] at opened
    exact absurd opened.length_eq nofun
  | mentions event waiting opened busy more told =>
    intro none
    rw [opened] at none
    exact absurd none busy
  | ends event waiting opened last told =>
    intro _ event' hl
    rw [told, List.getLast?_concat] at hl
    cases hl
    exact last

theorem events_log (e : Engine) (lines : List LogLine) : (e.log lines).events = e.events := by
  rw [log_eq]
  exact events_of_silent _ rfl (silent_map_reverse _ (fun _ => rfl) _)

/-- What is logged changes no account. -/
theorem Books.log (h : Books files e) (lines : List LogLine) : Books files (e.log lines) := by
  have told := e.events_log lines
  have order := h.streams.order
  have places := h.places
  have last := h.last
  rw [← told] at order places last
  rw [log_eq] at order places last ⊢
  exact ⟨h.one, h.seen, ⟨h.streams.unheard, order⟩, places, last⟩

/-! ## 4. The end -/

/-- No file waits or is open. -/
structure Over (e : Engine) : Prop where
  waiting : e.waitingFiles = []
  opened : e.openFiles = []

/-- **A quiet engine has no file that waits or is open.** -/
theorem Books.over_of_isQuiet (h : Books files e) (quiet : e.isQuiet = true) : e.Over := by
  obtain ⟨empty, idle⟩ := Bool.and_eq_true_iff.mp quiet
  have none : e.queue.tasks = [] := List.isEmpty_iff.mp empty
  refine ⟨by rw [waitingFiles, none]; rfl, List.filterMap_eq_nil_iff.mpr fun p hp => ?_⟩
  obtain ⟨i, hi⟩ := List.mem_iff_getElem?.mp hp
  have at' : e.At i p := hi
  cases open' : p.openFile? with
  | none => rfl
  | some path =>
    -- the worker would be seen
    obtain ⟨b, hb⟩ := Option.ne_none_iff_exists'.mp (busy_of_openFile? open')
    have seen := h.seen i b ((hand?_of_at at').trans hb)
    rw [seen] at idle
    cases idle

/-- Each file was told of to the end once, when none waits or is open. -/
theorem Books.ended_of_over (h : Books files e) (atEnd : e.Over) :
    (endedFiles e.events).Perm files := by
  have places := h.places
  rw [atEnd.waiting, atEnd.opened] at places
  exact places

/-- No file is told of to the end twice. -/
theorem Books.ended_apart (h : Books files e) (distinct : files.Nodup) (atEnd : e.Over) (n : Nat)
    {path : String} (early : path ∈ endedFiles (e.events.take n)) :
    path ∉ endedFiles (e.events.drop n) := by
  intro late
  have once := (h.ended_of_over atEnd).nodup_iff.mpr distinct
  rw [← List.take_append_drop n e.events, endedFiles_append] at once
  exact (List.nodup_append.mp once).2.2 path early path late rfl

/-- Behind every place but the last a file is told of to the end. -/
theorem Books.exists_ended (h : Books files e) (atEnd : e.Over) {n : Nat}
    (before : n < e.events.length) : ∃ path ∈ files, path ∈ endedFiles (e.events.drop n) := by
  have more : e.events.drop n ≠ [] := by simpa using before
  obtain ⟨event, last⟩ : ∃ event, (e.events.drop n).getLast? = some event :=
    ⟨_, List.getLast?_eq_some_getLast more⟩
  have final : event.isTerminal = true := by
    refine h.last atEnd.opened event ?_
    rw [← List.take_append_drop n e.events, List.getLast?_append, last]
    rfl
  have late : event.path ∈ endedFiles (e.events.drop n) :=
    mem_endedFiles.mpr ⟨event, List.mem_of_getLast? last, final, rfl⟩
  refine ⟨event.path, (h.ended_of_over atEnd).mem_iff.mp ?_, late⟩
  rw [← List.take_append_drop n e.events, endedFiles_append]
  exact List.mem_append_right _ late

/-- Once each file was told of to the end, none waits or is open. -/
theorem Books.over_of_ended (h : Books files e) (distinct : files.Nodup)
    (ended : ∀ path ∈ files, path ∈ endedFiles e.events) : e.Over := by
  have once := h.places.nodup_iff.mpr distinct
  obtain ⟨-, -, apart⟩ := List.nodup_append.mp once
  have none (path : String) (there : path ∈ e.waitingFiles ++ e.openFiles) : False := by
    have known : path ∈ files := h.places.mem_iff.mp (List.mem_append_left _ there)
    exact apart path there path (ended path known) rfl
  constructor
  · exact List.eq_nil_iff_forall_not_mem.mpr fun path there =>
      none path (List.mem_append_left _ there)
  · exact List.eq_nil_iff_forall_not_mem.mpr fun path there =>
      none path (List.mem_append_right _ there)

/-- **Once no file waits or is open, nothing more is told of.** -/
theorem Over.step (h : e.Over) (hs : e.step? a = some e') (orderly : a.isOrderly = true) :
    e'.Over ∧ e'.events = e.events := by
  cases handling_of_step hs orderly with
  | nothing waiting opened told =>
    exact ⟨⟨waiting.trans h.waiting, opened.trans h.opened⟩, told⟩
  | opens path waiting =>
    rw [h.waiting] at waiting
    cases waiting
  | mentions event _ _ busy => exact absurd h.opened busy
  | ends event _ opened =>
    rw [h.opened] at opened
    exact absurd opened.length_eq nofun

end Engine

end CodeInsight
