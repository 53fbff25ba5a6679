import CodeInsight.Engine.Task

/-!
# The queue of tasks

* a `TaskQueue` holds at most one task for a path: a new request takes the place of the old one,
  and with it another place in the order;
* a task of high priority goes to the front, every other to the back, so the latest of the urgent
  tasks is the next, and the others wait in the order of their requests;
* the times of requests increase strictly, even where the clock does not (`TaskQueue.nextTime`),
  since the identities of tasks hang on them.
-/

namespace CodeInsight

/-- The tasks waiting, the next one first, and the time of the latest request. -/
structure TaskQueue where
  tasks : List Task := []
  lastTime : Option Instant := none

namespace TaskQueue

instance : Inhabited TaskQueue := ⟨⟨[], none⟩⟩

/-- The queue before the first request. -/
def empty : TaskQueue := {}

/-- The time of the next request: what the clock says or, unless that is later than the latest
    request, one microsecond after it. After the end of time there is none. -/
def nextTime? (q : TaskQueue) (clock : Instant) : Option Instant :=
  match q.lastTime with
  | none => some clock
  | some t => if clock.notAfter t then t.nextMicro? else some clock

/-- The time of the next request, where there is one. -/
def nextTime (q : TaskQueue) (clock : Instant) : Instant := (q.nextTime? clock).getD clock

/-- The task that waits for a path. -/
def find? (q : TaskQueue) (path : String) : Option Task := q.tasks.find? fun t => t.path == path

/-- Whether a task waits for a path. -/
def contains (q : TaskQueue) (path : String) : Bool := q.tasks.any fun t => t.path == path

/-- Takes the task that waits for a path out of the queue. -/
def remove (q : TaskQueue) (path : String) : Option Task × TaskQueue :=
  (q.find? path, { q with tasks := q.tasks.eraseP fun t => t.path == path })

/-- Puts a task where its priority belongs. -/
def insert (t : Task) (tasks : List Task) : List Task :=
  if t.priority = .high then t :: tasks else tasks ++ [t]

/-- Takes up a request made when the clock says `clock` and there is a time for it; the task as it
    waits, and the queue. -/
def enqueue (q : TaskQueue) (clock : Instant) (path : String) (priority : Priority)
    (kind : TaskKind) : Task × TaskQueue :=
  let time := q.nextTime clock
  let task := Task.of path priority kind time
  (task, ⟨insert task (q.remove path).2.tasks, some time⟩)

/-- Takes the next task. -/
def dequeue (q : TaskQueue) : Option Task × TaskQueue :=
  (q.tasks.head?, { q with tasks := q.tasks.tail })

/-- Drops all tasks; their number. -/
def clear (q : TaskQueue) : Nat × TaskQueue := (q.tasks.length, { q with tasks := [] })

/-- The number of tasks waiting. -/
def length (q : TaskQueue) : Nat := q.tasks.length

/-- Whether no task waits. -/
def isEmpty (q : TaskQueue) : Bool := q.tasks.isEmpty

end TaskQueue

end CodeInsight
