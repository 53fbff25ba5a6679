import CodeInsight.Proofs.Command.Progress
import CodeInsight.Proofs.Command.Start

/-!
# What is printed

* a `PrintRun` keeps the moments that printing went through, as a run of the engine does;
* `Turn` lists what a step of printing can do, and `Ledger` is the account that each of them keeps:
  up to the place of the receiver every event was printed, once and in its order, but for those that
  were lost;
* printing ends with everything printed (`Complete`) unless a quiet engine is looked at while the
  receiver is too far behind (`PrintMoment.isBlind`): then nothing of what waits is printed
  (`Printing.look_of_lagging`).
-/

namespace CodeInsight

/-- The printing, and what comes next. -/
structure PrintMoment where
  printing : Printing
  step : PrintStep

namespace Printing

/-! ## 1. Runs -/

/-- The number of events that wait for the receiver. -/
def waiting (p : Printing) : Nat := p.time.engine.bus.channel.waiting p.receiver

/-- **A run of printing**, with the moments it went through, the latest first. -/
inductive PrintRun (p₀ : Printing) : List PrintMoment → Printing → Prop where
  | start : PrintRun p₀ [] p₀
  | step {past : List PrintMoment} {p p' : Printing} {s : PrintStep} (h : PrintRun p₀ past p)
      (hs : p.step? s = some p') : PrintRun p₀ (⟨p, s⟩ :: past) p'

/-- Reaching a printing is running to it. -/
theorem reaches_iff_printRun {p₀ p : Printing} : p₀.Reaches p ↔ ∃ past, PrintRun p₀ past p := by
  constructor
  · intro h
    induction h with
    | start => exact ⟨[], .start⟩
    | step _ hs ih =>
      obtain ⟨past, run⟩ := ih
      exact ⟨_, .step run hs⟩
  · rintro ⟨past, run⟩
    induction run with
    | start => exact .start
    | step _ hs ih => exact .step ih hs

/-- What a list of steps leads to, if each of them can be taken. -/
def trace? : List PrintStep → List PrintMoment × Printing → Option (List PrintMoment × Printing)
  | [], r => some r
  | s :: ss, (past, p) => (p.step? s).bind fun p' => trace? ss (⟨p, s⟩ :: past, p')

/-- Taking one step after the other is a run. -/
theorem PrintRun.of_trace? {p₀ p p' : Printing} {past later : List PrintMoment}
    {ss : List PrintStep} (h : PrintRun p₀ past p) (ht : trace? ss (past, p) = some (later, p')) :
    PrintRun p₀ later p' := by
  induction ss generalizing past p with
  | nil =>
    cases ht
    exact h
  | cons s ss ih =>
    obtain ⟨p₁, hs, ht⟩ := Option.bind_eq_some_iff.mp ht
    exact ih (h.step hs) ht

end Printing

namespace PrintMoment

/-- Whether the engine, if it is its turn, takes a step that neither asks for an analysis nor drops
    one, without a collaborator that breaks down. -/
def isOrderly (m : PrintMoment) : Bool :=
  match m.step with
  | .engine a => a.isOrderly
  | _ => true

/-- Whether a quiet engine is looked at while the receiver is too far behind. -/
def isBlind (m : PrintMoment) : Bool :=
  match m.step with
  | .look => m.printing.time.engine.isQuiet && decide (Channel.capacity < m.printing.waiting)
  | _ => false

/-- The number of events that the receiver is told it lost. -/
def lost (m : PrintMoment) : Nat :=
  match m.step with
  | .receive => m.printing.waiting - Channel.capacity
  | _ => 0

end PrintMoment

/-- The number of events that the receiver was told it lost in moments. -/
def lostIn : List PrintMoment → Nat
  | [] => 0
  | m :: past => lostIn past + m.lost

namespace Printing

open Engine

variable {files : List String} {p p' : Printing} {s : PrintStep}

/-! ## 2. What a step can do -/

/-- The printing after the next event was received. -/
def got (p : Printing) (event : Event) : Printing :=
  { p with receiver := ⟨p.receiver.next + 1⟩ }.print event

/-- The printing after it was told that events were lost. -/
def missed (p : Printing) (n : Nat) : Printing := p.take (.lagged n) ⟨p.receiver.next + n⟩

/-- **What a step can do.** -/
inductive Turn (p : Printing) : PrintStep → Printing → Prop where
  | engine {a : Action} {e : Engine} (hs : p.time.engine.step? a = some e) :
      Turn p (.engine a) { p with time := { p.time with engine := e } }
  | event {event : Event} (going : p.isOpen = true)
      (there : p.time.engine.bus.channel.order[p.receiver.next]? = some event)
      (near : p.waiting ≤ Channel.capacity) : Turn p .receive (p.got event).closeIfDone
  | lagged {n : Nat} (going : p.isOpen = true)
      (room : p.receiver.next + n ≤ p.time.engine.bus.channel.order.length)
      (told : n = p.waiting - Channel.capacity) : Turn p .receive (p.missed n).closeIfDone
  | busy (going : p.isOpen = true) (busy : p.time.engine.isQuiet = false) : Turn p .look p
  | quiet (going : p.isOpen = true) (quiet : p.time.engine.isQuiet = true) :
      Turn p .look { p.drain p.waiting with isOpen := false }

/-- **These are all.** -/
theorem turn_of_step (hs : p.step? s = some p') : Turn p s p' := by
  cases s with
  | engine a =>
    obtain ⟨e, went, rfl⟩ := Option.map_eq_some_iff.mp hs
    exact .engine went
  | receive =>
    simp only [step?] at hs
    split at hs
    · rename_i going
      obtain ⟨⟨d, r⟩, received, rfl⟩ := Option.map_eq_some_iff.mp hs
      cases d with
      | event event =>
        obtain ⟨there, rfl, near⟩ := Channel.receive?_event received
        exact .event going there near
      | lagged n =>
        obtain ⟨rfl, room, told⟩ := Channel.receive?_lagged received
        exact .lagged going room told
    · cases hs
  | look =>
    simp only [step?] at hs
    split at hs
    · rename_i going
      cases hs
      unfold look
      split
      · rename_i quiet
        exact .quiet going quiet
      · rename_i busy
        exact .busy going (by simpa using busy)
    · cases hs

/-! ## 3. The account -/

/-- **The account of what was printed.** -/
structure Ledger (files : List String) (p : Printing) : Prop where
  books : Books files p.time.engine
  /-- Up to the place of the receiver events were printed once and in their order … -/
  order : p.printed.reverse.Sublist (p.time.engine.events.take p.receiver.next)
  /-- … but for those that were lost. -/
  lost : p.printed.length + p.skipped = p.receiver.next
  reached : p.receiver.next ≤ p.time.engine.events.length
  counts : p.progress.Counts files p.printed

/-- What the engine does behind the receiver changes nothing of it. -/
theorem Ledger.engine (h : Ledger files p) {a : Action} {e : Engine}
    (hs : p.time.engine.step? a = some e) (orderly : a.isOrderly = true) :
    Ledger files { p with time := { p.time with engine := e } } := by
  have told := events_of_step hs
  have before : e.events.take p.receiver.next = p.time.engine.events.take p.receiver.next := by
    rw [told, List.take_append_of_le_length h.reached]
  refine ⟨h.books.step hs orderly, ?_, h.lost, ?_, h.counts⟩
  · show p.printed.reverse.Sublist (e.events.take p.receiver.next)
    rw [before]
    exact h.order
  · show p.receiver.next ≤ e.events.length
    rw [told, List.length_append]
    exact Nat.le_add_right_of_le h.reached

/-- The next event is printed behind those printed before. -/
theorem Ledger.got (h : Ledger files p) {event : Event}
    (there : p.time.engine.bus.channel.order[p.receiver.next]? = some event) :
    Ledger files (p.got event) := by
  rw [h.books.streams.order] at there
  refine ⟨h.books, ?_, ?_, ?_, h.counts.record event⟩
  · show (event :: p.printed).reverse.Sublist (p.time.engine.events.take (p.receiver.next + 1))
    rw [List.take_add_one, there, List.reverse_cons]
    exact h.order.append (.refl _)
  · show (event :: p.printed).length + p.skipped = p.receiver.next + 1
    have lost := h.lost
    rw [List.length_cons]
    omega
  · exact (List.getElem?_eq_some_iff.mp there).1

/-- Events that are lost are passed over. -/
theorem Ledger.missed (h : Ledger files p) {n : Nat}
    (room : p.receiver.next + n ≤ p.time.engine.bus.channel.order.length) :
    Ledger files (p.missed n) := by
  have told : (p.time.engine.log [laggedLine n]).events = p.time.engine.events :=
    events_log _ _
  rw [h.books.streams.order] at room
  refine ⟨h.books.log _, ?_, ?_, ?_, h.counts⟩
  · show p.printed.reverse.Sublist
      ((p.time.engine.log [laggedLine n]).events.take (p.receiver.next + n))
    rw [told]
    exact h.order.trans (List.take_sublist_take_left (Nat.le_add_right _ _))
  · show p.printed.length + (p.skipped + n) = p.receiver.next + n
    have lost := h.lost
    omega
  · show p.receiver.next + n ≤ (p.time.engine.log [laggedLine n]).events.length
    rw [told]
    exact room

/-- Whether printing goes on does not count. -/
theorem Ledger.withOpen (h : Ledger files p) (isOpen : Bool) :
    Ledger files { p with isOpen := isOpen } :=
  ⟨h.books, h.order, h.lost, h.reached, h.counts⟩

/-! ## 4. Printing what waits -/

theorem Ledger.drain (n : Nat) (h : Ledger files p) : Ledger files (p.drain n) := by
  induction n generalizing p with
  | zero => exact h
  | succ n ih =>
    unfold Printing.drain
    split
    · rename_i event r received
      obtain ⟨there, rfl, -⟩ := Channel.receive?_event received
      exact ih (h.got there)
    · exact h

/-- What the printing of an event leaves as it is, the printing of all that waits does too. -/
theorem eq_drain {α : Type} {f : Printing → α}
    (kept : ∀ p event r, f (({ p with receiver := r } : Printing).print event) = f p) (n : Nat)
    (p : Printing) : f (p.drain n) = f p := by
  induction n generalizing p with
  | zero => rfl
  | succ n ih =>
    unfold Printing.drain
    split
    · rw [ih, kept]
    · rfl

theorem time_drain (n : Nat) (p : Printing) : (p.drain n).time = p.time :=
  eq_drain (fun _ _ _ => rfl) n p

theorem skipped_drain (n : Nat) (p : Printing) : (p.drain n).skipped = p.skipped :=
  eq_drain (fun _ _ _ => rfl) n p

/-- **What waits is printed to the end**, if the receiver is not too far behind. -/
theorem next_drain {n : Nat} (near : p.waiting ≤ Channel.capacity) (left : p.waiting = n)
    (reached : p.receiver.next ≤ p.time.engine.bus.channel.order.length) :
    (p.drain n).receiver.next = p.time.engine.bus.channel.order.length := by
  have length := p.time.engine.bus.channel.length_order
  have wait : p.waiting = p.time.engine.bus.channel.count - p.receiver.next := rfl
  induction n generalizing p with
  | zero =>
    show p.receiver.next = _
    omega
  | succ n ih =>
    have there : p.receiver.next < p.time.engine.bus.channel.order.length := by omega
    have received := Channel.receive?_of_le near
    rw [List.getElem?_eq_getElem there] at received
    unfold Printing.drain
    rw [received]
    refine ih (p := p.got _) ?_ ?_ there length rfl
    · show p.time.engine.bus.channel.count - (p.receiver.next + 1) ≤ _
      omega
    · show p.time.engine.bus.channel.count - (p.receiver.next + 1) = n
      omega

/-- **Nothing of what waits is printed** if the receiver is too far behind. -/
theorem drain_of_lagging (far : Channel.capacity < p.waiting) (n : Nat) : p.drain n = p := by
  cases n with
  | zero => rfl
  | succ n =>
    have received := Channel.receive?_of_lt far
    unfold Printing.drain
    rw [received]

/-- A look at a quiet engine from too far behind only ends printing. -/
theorem look_of_lagging (quiet : p.time.engine.isQuiet = true)
    (far : Channel.capacity < p.waiting) : p.look = { p with isOpen := false } := by
  rw [look, if_pos quiet, drain_of_lagging far]

/-! ## 5. The end -/

/-- Everything was told of, and the receiver has come to the end of it. -/
structure Complete (p : Printing) : Prop where
  atEnd : p.time.engine.Over
  all : p.receiver.next = p.time.engine.events.length

/-- What was printed of a file to the end, the receiver has passed. -/
theorem Ledger.passed (h : Ledger files p) {path : String} (there : path ∈ endedFiles p.printed) :
    path ∈ endedFiles (p.time.engine.events.take p.receiver.next) := by
  obtain ⟨event, printed, last⟩ := mem_endedFiles.mp there
  exact mem_endedFiles.mpr ⟨event, h.order.subset (List.mem_reverse.mpr printed), last⟩

/-- **Once no file is pending, everything was told of and received.** -/
theorem Ledger.complete_of_isDone (h : Ledger files p) (distinct : files.Nodup)
    (done : p.progress.isDone = true) : Complete p := by
  have none : p.progress.pending = [] := List.isEmpty_iff.mp done
  have printed (path : String) (there : path ∈ files) : path ∈ endedFiles p.printed := by
    by_cases unseen : path ∈ endedFiles p.printed
    · exact unseen
    · have left := (h.counts.pending path).mpr ⟨there, unseen⟩
      rw [none] at left
      cases left
  have atEnd : p.time.engine.Over := h.books.over_of_ended distinct fun path there => by
    rw [← List.take_append_drop p.receiver.next p.time.engine.events, endedFiles_append]
    exact List.mem_append_left _ (h.passed (printed path there))
  refine ⟨atEnd, Nat.le_antisymm h.reached (Nat.le_of_not_lt fun behind => ?_)⟩
  obtain ⟨path, known, late⟩ := h.books.exists_ended atEnd behind
  exact h.books.ended_apart distinct atEnd _ (h.passed (printed path known)) late

/-- A step at which no quiet engine is looked at from too far behind ends printing only when it is
    complete, and leaves it so. -/
theorem Turn.complete (turn : Turn p s p') (h : Ledger files p) (distinct : files.Nodup)
    (h' : Ledger files p') (orderly : (PrintMoment.mk p s).isOrderly = true)
    (seeing : (PrintMoment.mk p s).isBlind = false) (before : p.isOpen = false → Complete p)
    (ended : p'.isOpen = false) : Complete p' := by
  have closed {q : Printing} (ended : q.closeIfDone.isOpen = false) (going : q.isOpen = true) :
      q.progress.isDone = true := by
    simpa [closeIfDone, going] using ended
  cases turn with
  | engine hs =>
    obtain ⟨atEnd, all⟩ := before ended
    obtain ⟨atEnd, same⟩ := atEnd.step hs orderly
    exact ⟨atEnd, all.trans (congrArg List.length same.symm)⟩
  | event going => exact h'.complete_of_isDone distinct (closed (q := p.got _) ended going)
  | lagged going => exact h'.complete_of_isDone distinct (closed (q := p.missed _) ended going)
  | busy going =>
    rw [going] at ended
    cases ended
  | quiet going quiet =>
    have near : p.waiting ≤ Channel.capacity := by
      simpa [PrintMoment.isBlind, quiet] using seeing
    have order := h.books.streams.order
    have reached := h.reached
    rw [← order] at reached
    have next := next_drain near rfl reached
    refine ⟨?_, ?_⟩
    · show (p.drain p.waiting).time.engine.Over
      rw [time_drain]
      exact h.books.over_of_isQuiet quiet
    · show (p.drain p.waiting).receiver.next = (p.drain p.waiting).time.engine.events.length
      rw [next, order, time_drain]

/-! ## 6. Runs -/

theorem Turn.ledger (turn : Turn p s p') (h : Ledger files p)
    (orderly : (PrintMoment.mk p s).isOrderly = true) : Ledger files p' := by
  cases turn with
  | engine hs => exact h.engine hs orderly
  | event _ there => exact (h.got there).withOpen _
  | lagged _ room => exact (h.missed room).withOpen _
  | busy => exact h
  | quiet => exact (h.drain p.waiting).withOpen _

/-- Only what the receiver is told it lost is skipped. -/
theorem Turn.skipped (turn : Turn p s p') : p'.skipped = p.skipped + (PrintMoment.mk p s).lost := by
  cases turn with
  | engine | busy => rfl
  | event _ _ near =>
    show p.skipped = p.skipped + (p.waiting - Channel.capacity)
    omega
  | lagged _ _ told =>
    show p.skipped + _ = p.skipped + (p.waiting - Channel.capacity)
    rw [told]
  | quiet => exact skipped_drain p.waiting p

/-- Nothing is printed between two printings. -/
structure SamePrint (p p' : Printing) : Prop where
  printed : p'.printed = p.printed
  skipped : p'.skipped = p.skipped
  progress : p'.progress = p.progress

theorem SamePrint.trans {p₁ p₂ p₃ : Printing} (h : SamePrint p₁ p₂) (h' : SamePrint p₂ p₃) :
    SamePrint p₁ p₃ :=
  ⟨h'.printed.trans h.printed, h'.skipped.trans h.skipped, h'.progress.trans h.progress⟩

/-- Printing that has ended prints nothing more. -/
theorem Turn.closed (turn : Turn p s p') (closed : p.isOpen = false) :
    p'.isOpen = false ∧ SamePrint p p' := by
  cases turn with
  | engine => exact ⟨closed, rfl, rfl, rfl⟩
  | event going | lagged going | busy going | quiet going =>
    rw [closed] at going
    cases going

/-- **A look at a quiet engine from too far behind ends printing**, and nothing that waits is
    printed. -/
theorem Turn.blind (turn : Turn p s p') (blind : (PrintMoment.mk p s).isBlind = true) :
    p'.isOpen = false ∧ SamePrint p p' := by
  cases turn with
  | engine | event | lagged => cases blind
  | busy _ busy =>
    simp only [PrintMoment.isBlind, busy, Bool.false_and] at blind
    cases blind
  | quiet _ quiet =>
    have far : Channel.capacity < p.waiting := by
      simpa [PrintMoment.isBlind, quiet] using blind
    rw [drain_of_lagging far]
    exact ⟨rfl, rfl, rfl, rfl⟩

section Start

variable {time : Timetable} {past : List PrintMoment}

/-- At the beginning nothing was told of and nothing is printed. -/
theorem ledger_start (started : Started files time.engine) (distinct : files.Nodup) :
    Ledger files (.start time files) where
  books := started.books
  order := List.nil_sublist _
  lost := rfl
  reached := Nat.zero_le _
  counts := Progress.counts_start distinct

/-- Without files printing has ended before it begins. -/
theorem complete_start (started : Started files time.engine)
    (ended : (Printing.start time files).isOpen = false) : Complete (.start time files) := by
  have none : files = [] := by
    simpa [Printing.start, closeIfDone, Progress.isDone, Progress.start] using ended
  have nobody : time.engine.phases = [.queueing] := by
    rw [phases, started.workers]
    rfl
  have waiting := started.waiting
  rw [none] at waiting
  refine ⟨⟨waiting.eq_nil, ?_⟩, ?_⟩
  · show time.engine.openFiles = []
    rw [openFiles, nobody]
    rfl
  · show 0 = time.engine.events.length
    rw [started.events]
    rfl

/-- **The account is kept** in every run. -/
theorem PrintRun.ledger (run : PrintRun (.start time files) past p)
    (started : Started files time.engine) (distinct : files.Nodup)
    (orderly : ∀ m ∈ past, m.isOrderly = true) : Ledger files p := by
  induction run with
  | start => exact ledger_start started distinct
  | step _ hs ih =>
    obtain ⟨now, before⟩ := List.forall_mem_cons.mp orderly
    exact (turn_of_step hs).ledger (ih before) now

/-- **What was skipped was reported lost**, and nothing else was. -/
theorem PrintRun.skipped (run : PrintRun (.start time files) past p) : p.skipped = lostIn past := by
  induction run with
  | start => rfl
  | step _ hs ih => rw [(turn_of_step hs).skipped, ih, lostIn]

/-- **Printing that has ended is complete**, unless a quiet engine was looked at from too far
    behind. -/
theorem PrintRun.complete (run : PrintRun (.start time files) past p)
    (started : Started files time.engine) (distinct : files.Nodup)
    (orderly : ∀ m ∈ past, m.isOrderly = true) (seeing : ∀ m ∈ past, m.isBlind = false)
    (ended : p.isOpen = false) : Complete p := by
  induction run with
  | start => exact complete_start started ended
  | step run hs ih =>
    have after := (run.step hs).ledger started distinct orderly
    obtain ⟨now, before⟩ := List.forall_mem_cons.mp orderly
    obtain ⟨sees, saw⟩ := List.forall_mem_cons.mp seeing
    exact (turn_of_step hs).complete (run.ledger started distinct before) distinct after now sees
      (ih before saw) ended

/-- **After such a look nothing more is printed.** -/
theorem PrintRun.blind {p₀ : Printing} (run : PrintRun p₀ past p) {m : PrintMoment} (hm : m ∈ past)
    (blind : m.isBlind = true) : p.isOpen = false ∧ SamePrint m.printing p := by
  induction run with
  | start => cases hm
  | @step past q q' s run hs ih =>
    have turn := turn_of_step hs
    rcases List.mem_cons.mp hm with rfl | hm
    · exact turn.blind blind
    · obtain ⟨closed, same⟩ := ih hm
      obtain ⟨closed', same'⟩ := turn.closed closed
      exact ⟨closed', same.trans same'⟩

end Start

/-- **What the analysis of files prints.** In whatever order the engine takes its steps, events are
    received and its status is looked at:

    * up to the place of the receiver every event was printed, once and in the order of publishing,
      but for as many as the receiver was told it lost;
    * the files that were analysed, that failed and that are pending are all files;
    * when printing has ended and no quiet engine was looked at from too far behind, the receiver
      has come to the end of what was published, and a file is pending only if the event that ended
      its analysis was lost;
    * with a look at a quiet engine from too far behind printing ends, and nothing is printed or
      reported lost any more, whatever still waits. -/
theorem PrintRun.prints_all {s : Workplace} {settings : Settings} {store : InsightStore}
    {priority : Priority} {p₀ : Printing} {past : List PrintMoment}
    (begun : s.begin? settings store files priority = some p₀) (distinct : files.Nodup)
    (run : PrintRun p₀ past p) (orderly : ∀ m ∈ past, m.isOrderly = true) :
    p.printed.reverse.Sublist (p.time.engine.events.take p.receiver.next) ∧
      p.printed.length + lostIn past = p.receiver.next ∧ p.skipped = lostIn past ∧
      p.progress.analyzed + p.progress.failed + p.progress.pending.length = files.length ∧
      (p.isOpen = false → (∀ m ∈ past, m.isBlind = false) →
        p.receiver.next = p.time.engine.events.length ∧
          ∀ path ∈ p.progress.pending, ∃ event ∈ p.time.engine.events,
            event.isTerminal = true ∧ event.path = path ∧ event ∉ p.printed) ∧
      ∀ m ∈ past, m.isBlind = true → p.isOpen = false ∧ SamePrint m.printing p := by
  obtain ⟨e, built, rfl⟩ := Option.map_eq_some_iff.mp begun
  have started := Workplace.started_engineFor built distinct
  have ledger := run.ledger started distinct orderly
  have skipped := run.skipped
  have lost := ledger.lost
  rw [skipped] at lost
  refine ⟨ledger.order, lost, skipped, ledger.counts.total, fun ended seeing => ?_,
    fun m hm blind => run.blind hm blind⟩
  have complete := run.complete started distinct orderly seeing ended
  refine ⟨complete.all, fun path left => ?_⟩
  obtain ⟨known, unseen⟩ := (ledger.counts.pending path).mp left
  have told := (ledger.books.ended_of_over complete.atEnd).mem_iff.mpr known
  obtain ⟨event, there, last, about⟩ := mem_endedFiles.mp told
  exact ⟨event, there, last, about, fun printed =>
    unseen (mem_endedFiles.mpr ⟨event, printed, last, about⟩)⟩

/-- The analysis of a file that is not there, before anything has happened. -/
def missingFile : Option Printing :=
  ({ tree := {} } : Workplace).begin? {} default ["a.rs"] .medium

/-- The analysis, with a look at the engine at the beginning, on the way and at the end. -/
def missingFileSteps : List PrintStep :=
  [.look, .engine (.worker 0 .enterSlot), .engine (.worker 0 .look), .engine (.worker 0 .take),
    .look, .engine (.worker 0 (.endReading (.fault .missing))), .engine (.worker 0 .refuse),
    .engine (.worker 0 .report), .engine (.worker 0 .finish), .look]

/-- Printing ends with the last look, and has printed what waited. -/
theorem prints_all_missingFile :
    ∃ p₀ past p, missingFile = some p₀ ∧ PrintRun p₀ past p ∧
      (∀ m ∈ past, m.isOrderly = true) ∧ (∀ m ∈ past, m.isBlind = false) ∧
      p.isOpen = false ∧ p.printed.length = 1 ∧
      p.progress = { pending := [], analyzed := 0, failed := 1 } ∧
      p.printed.reverse.Sublist (p.time.engine.events.take p.receiver.next) ∧
      p.receiver.next = p.time.engine.events.length := by
  obtain ⟨⟨past, p⟩, traced, seen⟩ := Option.map_eq_some_iff.mp (show
    (missingFile.bind fun p₀ => trace? missingFileSteps ([], p₀)).map (fun r =>
      (r.1.all fun m => m.isOrderly && !m.isBlind, r.2.isOpen, r.2.printed.length,
        r.2.progress)) = some (true, false, 1, { pending := [], analyzed := 0, failed := 1 })
      by decide)
  obtain ⟨p₀, begun, ht⟩ := Option.bind_eq_some_iff.mp traced
  simp only [Prod.mk.injEq, List.all_eq_true, Bool.and_eq_true, Bool.not_eq_true'] at seen
  obtain ⟨calm, ended, one, progress⟩ := seen
  have run := PrintRun.start.of_trace? ht
  have orderly (m : PrintMoment) (hm : m ∈ past) : m.isOrderly = true := (calm m hm).1
  have seeing (m : PrintMoment) (hm : m ∈ past) : m.isBlind = false := (calm m hm).2
  obtain ⟨order, -, -, -, complete, -⟩ := PrintRun.prints_all begun (by decide) run orderly
  exact ⟨p₀, past, p, begun, run, orderly, seeing, ended, one, progress, order,
    (complete ended seeing).1⟩

end Printing

end CodeInsight
