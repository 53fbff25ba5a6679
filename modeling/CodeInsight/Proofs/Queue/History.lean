import CodeInsight.Engine.Queue

/-!
# The history of a queue

* a `QueueEntry` is a call to a queue with what it was answered; `TaskQueue.history` lists the
  entries of calls made one after the other on an empty queue, and `TaskQueue.after` is the queue
  they leave;
* from the history alone it can be said which tasks wait (`live`), and in which order (`waiting`):
  those of high priority first and the latest of them in front, the others behind them in the order
  in which they were asked for;
* **the queue is what its history says** (`TaskQueue.refines`), whatever the clock reads.
-/

namespace CodeInsight

/-! ## 1. Calls and their entries -/

/-- A call to a queue. A request comes with what the clock reads. -/
inductive QueueCall where
  | enqueue (clock : Instant) (path : String) (priority : Priority) (kind : TaskKind)
  | dequeue
  | remove (path : String)
  | clear

/-- A call with its answer. A request for which there is no time breaks off without one. -/
inductive QueueEntry where
  | enqueued (clock : Instant) (path : String) (priority : Priority) (kind : TaskKind)
      (answer : Option Task)
  | dequeued (answer : Option Task)
  | removed (path : String) (answer : Option Task)
  | cleared (dropped : Nat)
  deriving DecidableEq

namespace QueueEntry

/-- The task that a request was answered with. -/
def asked? : QueueEntry → Option Task
  | enqueued _ _ _ _ answer => answer
  | _ => none

/-- Whether no task that was asked for a path before waits after the call. -/
def ends : QueueEntry → String → Bool
  | enqueued _ own _ _ _, path => own == path
  | dequeued answer, path => answer.any fun t => t.path == path
  | removed own _, path => own == path
  | cleared _, _ => true

end QueueEntry

/-- The tasks asked for that no call after them has ended, the latest first; `later` are the calls
    after those given. -/
def liveBefore (later : List QueueEntry) : List QueueEntry → List Task
  | [] => []
  | c :: earlier =>
    (c.asked?.filter fun t => !later.any (·.ends t.path)).toList ++ liveBefore (c :: later) earlier

/-- **The tasks that still wait**, the one asked for last in front. -/
def live (entries : List QueueEntry) : List Task := liveBefore [] entries

/-- Whether a task is of high priority. -/
def Task.isHigh (t : Task) : Bool := t.priority == .high

/-- **The tasks that wait in their order**, as the history alone has it. -/
def waiting (entries : List QueueEntry) : List Task :=
  (live entries).filter Task.isHigh ++ ((live entries).filter fun t => !t.isHigh).reverse

namespace TaskQueue

/-- A call to a queue: its entry, and the queue after it. Where there is no time for a request, the
    older task for its path is taken out all the same. -/
def perform (q : TaskQueue) : QueueCall → QueueEntry × TaskQueue
  | .enqueue clock path priority kind =>
    if (q.nextTime? clock).isSome then
      let (t, q') := q.enqueue clock path priority kind
      (.enqueued clock path priority kind (some t), q')
    else (.enqueued clock path priority kind none, (q.remove path).2)
  | .dequeue => (.dequeued q.dequeue.1, q.dequeue.2)
  | .remove path => (.removed path (q.remove path).1, (q.remove path).2)
  | .clear => (.cleared q.clear.1, q.clear.2)

/-- The queue after calls, the latest first. -/
def after : List QueueCall → TaskQueue
  | [] => empty
  | c :: earlier => ((after earlier).perform c).2

/-- The entries of calls, the latest first. -/
def history : List QueueCall → List QueueEntry
  | [] => []
  | c :: earlier => ((after earlier).perform c).1 :: history earlier

/-- A request is answered with a task for what was asked, at the next time there is. -/
theorem perform_enqueue {q : TaskQueue} {clock time : Instant} {path : String}
    {priority : Priority} {kind : TaskKind} (ht : q.nextTime? clock = some time) :
    q.perform (.enqueue clock path priority kind) =
      (.enqueued clock path priority kind (some (Task.of path priority kind time)),
        ⟨insert (Task.of path priority kind time) (q.remove path).2.tasks, some time⟩) := by
  simp [perform, ht, enqueue, nextTime]

theorem perform_enqueue_none {q : TaskQueue} {clock : Instant} {path : String}
    {priority : Priority} {kind : TaskKind} (ht : q.nextTime? clock = none) :
    q.perform (.enqueue clock path priority kind) =
      (.enqueued clock path priority kind none, (q.remove path).2) := by
  simp [perform, ht]

end TaskQueue

/-! ## 2. What the history says -/

/-- A call that came before the later ones ends what it ends for all of them. -/
theorem liveBefore_append (later entries : List QueueEntry) (c : QueueEntry) :
    liveBefore (later ++ [c]) entries =
      (liveBefore later entries).filter fun t => !c.ends t.path := by
  induction entries generalizing later with
  | nil => rfl
  | cons d earlier ih =>
    have deeper := ih (d :: later)
    rw [List.cons_append] at deeper
    rw [liveBefore, liveBefore, deeper, List.filter_append]
    congr 1
    cases d.asked? with
    | none => rfl
    | some t =>
      cases hc : c.ends t.path <;> cases hl : later.any (·.ends t.path) <;>
        simp [Option.filter, hc, hl]

/-- **What a call does to the tasks that wait**: it ends some, and may ask for one. -/
theorem live_cons (c : QueueEntry) (past : List QueueEntry) :
    live (c :: past) = c.asked?.toList ++ (live past).filter fun t => !c.ends t.path := by
  have deeper := liveBefore_append [] past c
  rw [List.nil_append] at deeper
  rw [live, liveBefore, deeper]
  congr 1
  cases c.asked? <;> rfl

/-- In the order of the queue: what is ended goes, and what is asked for goes to its place. -/
theorem waiting_cons (c : QueueEntry) (past : List QueueEntry) :
    waiting (c :: past) =
      match c.asked? with
      | some t => TaskQueue.insert t ((waiting past).filter fun t => !c.ends t.path)
      | none => (waiting past).filter fun t => !c.ends t.path := by
  have kept (p : Task → Bool) : ((live past).filter fun t => !c.ends t.path).filter p =
      ((live past).filter p).filter fun t => !c.ends t.path := by
    rw [List.filter_filter, List.filter_filter]
    simp only [Bool.and_comm]
  rw [waiting, live_cons]
  cases c.asked? with
  | none => simp only [Option.toList_none, List.nil_append, kept, waiting, List.filter_append,
      List.filter_reverse]
  | some t =>
    cases high : t.isHigh with
    | true =>
      have first : t.priority = .high := by simpa [Task.isHigh] using high
      simp only [Option.toList_some, List.cons_append, List.nil_append, List.filter_cons, high,
        if_true, Bool.not_true, Bool.false_eq_true, if_false, kept, waiting, TaskQueue.insert,
        first, List.filter_append, List.filter_reverse]
    | false =>
      have other : t.priority ≠ .high := by simpa [Task.isHigh] using high
      simp only [Option.toList_some, List.cons_append, List.nil_append, List.filter_cons, high,
        if_true, Bool.not_false, Bool.false_eq_true, if_false, kept, waiting, TaskQueue.insert,
        other, List.filter_append, List.filter_reverse, List.reverse_cons, List.append_assoc]

/-- Tasks of high priority come before all others. -/
theorem waiting_highFirst (entries : List QueueEntry) :
    (waiting entries).Pairwise fun s t => t.priority = .high → s.priority = .high := by
  have first : ∀ t ∈ (live entries).filter Task.isHigh, t.priority = .high := by
    intro t ht
    simpa [Task.isHigh] using (List.mem_filter.mp ht).2
  have other : ∀ t ∈ ((live entries).filter fun t => !t.isHigh).reverse, t.priority ≠ .high := by
    intro t ht
    simpa [Task.isHigh] using (List.mem_filter.mp (List.mem_reverse.mp ht)).2
  refine List.pairwise_append.mpr ⟨?_, ?_, fun s hs t ht high => absurd high (other t ht)⟩
  · exact List.pairwise_of_forall_mem_list fun s hs _ _ _ => first s hs
  · exact List.pairwise_of_forall_mem_list fun _ _ t ht high => absurd high (other t ht)

/-! ## 3. One task for a path -/

section Paths

variable {ts : List Task}

/-- If no path stands twice, taking out the first task for a path takes out all. -/
theorem eraseP_eq_filter (once : (ts.map Task.path).Nodup) (path : String) :
    ts.eraseP (fun t => t.path == path) = ts.filter fun t => !(path == t.path) := by
  induction ts with
  | nil => rfl
  | cons t ts ih =>
    obtain ⟨fresh, rest⟩ := List.nodup_cons.mp once
    by_cases own : t.path = path
    · have others : ∀ s ∈ ts, (!(path == s.path)) = true := by
        intro s hs
        have other : path ≠ s.path := by
          intro same
          rw [own, same] at fresh
          exact fresh (List.mem_map_of_mem hs)
        simpa using other
      rw [List.eraseP_cons_of_pos (by simpa using own), List.filter_cons_of_neg (by simp [own]),
        List.filter_eq_self.mpr others]
    · rw [List.eraseP_cons_of_neg (by simpa using own),
        List.filter_cons_of_pos (by simpa using Ne.symm own), ih rest]

/-- If no path stands twice, what is behind the first task is what is for another path. -/
theorem tail_eq_filter (once : (ts.map Task.path).Nodup) :
    ts.tail = ts.filter fun t => !ts.head?.any fun s => s.path == t.path := by
  cases ts with
  | nil => rfl
  | cons t ts =>
    have erased := eraseP_eq_filter once t.path
    rw [List.eraseP_cons_of_pos (by simp)] at erased
    exact erased

end Paths

namespace TaskQueue

/-- A call asks for a task only as a request for its path, priority and kind at the next time. -/
theorem asked_cases {q : TaskQueue} {c : QueueCall} {t : Task}
    (h : (q.perform c).1.asked? = some t) :
    ∃ clock time, c = .enqueue clock t.path t.priority t.kind ∧ q.nextTime? clock = some time ∧
      t = Task.of t.path t.priority t.kind time ∧
      (q.perform c).1 = .enqueued clock t.path t.priority t.kind (some t) ∧
      (q.perform c).2.lastTime = some time := by
  cases c with
  | enqueue clock path priority kind =>
    cases ht : q.nextTime? clock with
    | none =>
      rw [perform_enqueue_none ht] at h
      cases h
    | some time =>
      rw [perform_enqueue ht] at h ⊢
      cases h
      exact ⟨clock, time, rfl, ht, rfl, rfl, rfl⟩
  | dequeue | remove | clear => cases h

/-- What a call asks for is for a path whose older tasks it ends. -/
theorem ends_asked {q : TaskQueue} {c : QueueCall} {t : Task}
    (h : (q.perform c).1.asked? = some t) : (q.perform c).1.ends t.path = true := by
  obtain ⟨clock, time, -, -, -, entry, -⟩ := asked_cases h
  rw [entry]
  exact beq_self_eq_true t.path

/-- **No path waits twice.** -/
theorem live_once (calls : List QueueCall) : ((live (history calls)).map Task.path).Nodup := by
  induction calls with
  | nil => exact List.nodup_nil
  | cons c earlier ih =>
    rw [history, live_cons, List.map_append]
    have rest := ih.sublist (List.Sublist.map Task.path (List.filter_sublist
      (p := fun t : Task => !((after earlier).perform c).1.ends t.path)))
    cases asked : ((after earlier).perform c).1.asked? with
    | none => simpa using rest
    | some t =>
      refine List.nodup_cons.mpr ⟨fun there => ?_, rest⟩
      obtain ⟨s, hs, same⟩ := List.mem_map.mp there
      have kept := (List.mem_filter.mp hs).2
      rw [same, ends_asked asked] at kept
      cases kept

theorem waiting_once (calls : List QueueCall) :
    ((waiting (history calls)).map Task.path).Nodup := by
  have perm : (waiting (history calls)).Perm (live (history calls)) := by
    refine ((List.Perm.refl _).append (List.reverse_perm _)).trans ?_
    exact List.filter_append_perm _ _
  exact ((perm.map _).nodup_iff).mpr (live_once calls)

/-! ## 4. The queue is what its history says -/

/-- **What waits in the queue** is what the history says, in that order. -/
theorem tasks_after (calls : List QueueCall) :
    (after calls).tasks = waiting (history calls) := by
  induction calls with
  | nil => rfl
  | cons c earlier ih =>
    have once := waiting_once earlier
    rw [← ih] at once
    rw [history, waiting_cons, ← ih, after]
    cases c with
    | enqueue clock path priority kind =>
      cases ht : (after earlier).nextTime? clock with
      | none =>
        rw [perform_enqueue_none ht]
        exact eraseP_eq_filter once path
      | some time =>
        rw [perform_enqueue ht]
        exact congrArg (insert _) (eraseP_eq_filter once path)
    | dequeue => exact tail_eq_filter once
    | remove path => exact eraseP_eq_filter once path
    | clear => exact (List.filter_eq_nil_iff.mpr fun _ _ => by simp [QueueEntry.ends, perform]).symm

/-- **What a queue shows of its history.** -/
structure Refines (calls : List QueueCall) : Prop where
  /-- The tasks in the queue are those that the history says, in that order. -/
  snapshot : (after calls).tasks = waiting (history calls)
  /-- Each of them is what a request for its path, priority and kind was answered with. -/
  asked : ∀ t ∈ waiting (history calls), ∃ clock,
    .enqueued clock t.path t.priority t.kind (some t) ∈ history calls
  /-- No path stands twice. -/
  once : ((waiting (history calls)).map Task.path).Nodup
  /-- No task of another priority comes before one of high priority. -/
  highFirst : (waiting (history calls)).Pairwise fun s t => t.priority = .high → s.priority = .high
  /-- The next task is the first, and the others are left. -/
  dequeue : (after calls).dequeue.1 = (waiting (history calls)).head? ∧
    (after calls).dequeue.2.tasks = (waiting (history calls)).tail
  /-- What is taken out for a path is the task for it, and all others are left. -/
  remove : ∀ path, ((after calls).remove path).1 =
      (waiting (history calls)).find? (fun t => t.path == path) ∧
    ((after calls).remove path).2.tasks =
      (waiting (history calls)).filter fun t => !(path == t.path)
  /-- Whether a task waits for a path, and how many wait. -/
  contains : ∀ path, (after calls).contains path = true ↔
    ∃ t ∈ waiting (history calls), t.path = path
  length : (after calls).length = (waiting (history calls)).length
  /-- Clearing drops all, and counts them. -/
  clear : (after calls).clear.1 = (waiting (history calls)).length ∧
    (after calls).clear.2.tasks = []

/-- A task that waits is what a request was answered with. -/
theorem asked_of_live {calls : List QueueCall} {t : Task} (h : t ∈ live (history calls)) :
    ∃ clock, .enqueued clock t.path t.priority t.kind (some t) ∈ history calls := by
  induction calls with
  | nil => cases h
  | cons c earlier ih =>
    rw [history, live_cons] at h
    rcases List.mem_append.mp h with now | before
    · have asked : ((after earlier).perform c).1.asked? = some t := by simpa using now
      obtain ⟨clock, time, -, -, -, entry, -⟩ := asked_cases asked
      refine ⟨clock, ?_⟩
      rw [history, entry]
      exact List.mem_cons_self
    · obtain ⟨clock, there⟩ := ih (List.mem_filter.mp before).1
      exact ⟨clock, List.mem_cons_of_mem _ there⟩

theorem mem_live_of_waiting {entries : List QueueEntry} {t : Task} (h : t ∈ waiting entries) :
    t ∈ live entries := by
  rcases List.mem_append.mp h with high | other
  · exact (List.mem_filter.mp high).1
  · exact (List.mem_filter.mp (List.mem_reverse.mp other)).1

/-- **The queue refines its history**, whatever is called in whatever order and whatever the clock
    reads. -/
theorem refines (calls : List QueueCall) : Refines calls where
  snapshot := tasks_after calls
  asked _ h := asked_of_live (mem_live_of_waiting h)
  once := waiting_once calls
  highFirst := waiting_highFirst _
  dequeue := by
    rw [← tasks_after]
    exact ⟨rfl, rfl⟩
  remove path := by
    rw [← tasks_after]
    exact ⟨rfl, eraseP_eq_filter (by rw [tasks_after]; exact waiting_once calls) path⟩
  contains path := by
    rw [← tasks_after]
    simp [TaskQueue.contains]
  length := by
    rw [← tasks_after]
    rfl
  clear := by
    rw [← tasks_after]
    exact ⟨rfl, rfl⟩

end TaskQueue

end CodeInsight
