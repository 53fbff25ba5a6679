import CodeInsight.Bus.Encoding
import CodeInsight.Engine.Timetable
import CodeInsight.Json.Printer

/-!
# Printing what the engine tells

* while files are analysed, every event that can be received is printed as a line of JSON, and it is
  counted which files are analysed, failed or still pending (`Progress`);
* printing ends when no file is pending or, since events may be lost to a reader who is too slow,
  when the engine is seen quiet: then what still waits is printed (`Printing.step?`);
* `Printing.Reaches` is every order in which the engine, its events and the looks at its status may
  come, `Printing.run` the one in which each event is printed as soon as it is there.
-/

namespace CodeInsight

/-! ## 1. Progress -/

/-- The files whose analysis has not ended, and how many were analysed and failed. -/
structure Progress where
  pending : List String
  analyzed : Nat := 0
  failed : Nat := 0
  deriving DecidableEq, Repr

namespace Progress

/-- The progress at the beginning. -/
def start (files : List String) : Progress := { pending := files }

/-- The progress after an event: one that ends the analysis of a pending file is counted. -/
def record (p : Progress) (event : Event) : Progress :=
  if event.isTerminal && p.pending.contains event.path then
    let p' := { p with pending := p.pending.filter (· != event.path) }
    match event with
    | .completed .. => { p' with analyzed := p.analyzed + 1 }
    | _ => { p' with failed := p.failed + 1 }
  else p

/-- Whether no file is pending. -/
def isDone (p : Progress) : Bool := p.pending.isEmpty

end Progress

/-! ## 2. Printing -/

/-- The printing of events, with the engine in time. -/
structure Printing where
  time : Timetable
  receiver : Receiver
  progress : Progress
  /-- The events printed, the latest first. -/
  printed : List Event := []
  /-- The number of events that were lost. -/
  skipped : Nat := 0
  /-- Whether printing goes on. -/
  isOpen : Bool := true

/-- What may come next: a step of the engine, something to receive, or a look at the status. -/
inductive PrintStep where
  | engine (a : Action)
  | receive
  | look

namespace Printing

/-- The printing after an event. -/
def print (p : Printing) (event : Event) : Printing :=
  let progress := p.progress.record event
  { p with progress := progress, printed := event :: p.printed }

/-- What is logged of lost events. -/
def laggedLine (n : Nat) : LogLine := ⟨.warn, s!"Event stream lagged, {n} events not printed"⟩

/-- The printing after something was received. -/
def take (p : Printing) (d : Delivery) (receiver : Receiver) : Printing :=
  let p' := { p with receiver := receiver }
  match d with
  | .event e => p'.print e
  | .lagged n =>
    { p' with
      skipped := p.skipped + n
      time := { p.time with engine := p.time.engine.log [laggedLine n] } }

/-- The printing, closed if no file is pending. -/
def closeIfDone (p : Printing) : Printing := { p with isOpen := p.isOpen && !p.progress.isDone }

/-- Receives and prints what comes next. -/
def receive? (p : Printing) : Option Printing :=
  (p.time.engine.bus.channel.receive? p.receiver).map fun r => (p.take r.1 r.2).closeIfDone

/-- Prints what waits, up to a loss. -/
def drain : Nat → Printing → Printing
  | 0, p => p
  | n + 1, p =>
    match p.time.engine.bus.channel.receive? p.receiver with
    | some (.event e, receiver) => drain n ({ p with receiver := receiver }.print e)
    | _ => p

/-- Looks at the status; if the engine is quiet, prints what waits and ends. -/
def look (p : Printing) : Printing :=
  if p.time.engine.isQuiet then
    { p.drain (p.time.engine.bus.channel.waiting p.receiver) with isOpen := false }
  else p

/-- A step, if it can be taken. The engine may go on after printing has ended. -/
def step? (p : Printing) : PrintStep → Option Printing
  | .engine a => (p.time.engine.step? a).map fun e => { p with time := { p.time with engine := e } }
  | .receive => if p.isOpen then p.receive? else none
  | .look => if p.isOpen then some p.look else none

/-- **Any number of steps**, in any order. -/
inductive Reaches (p : Printing) : Printing → Prop where
  | start : Reaches p p
  | step {p₁ p₂ : Printing} {s : PrintStep} (h : Reaches p p₁) (hs : p₁.step? s = some p₂) :
      Reaches p p₂

/-! ## 3. Printing at once -/

/-- Prints each event as soon as it is there, and moves the clock if nothing is due. -/
def run (w : World) : Nat → Printing → Printing
  | 0, p => p
  | fuel + 1, p =>
    if !p.isOpen then p
    else
      match p.receive? with
      | some p' => run w fuel p'
      | none =>
        match p.time.due? w with
        | some action => run w fuel { p with time := p.time.perform w action }
        | none =>
          if p.time.engine.isQuiet then p.look
          else
            match p.time.nextTime? with
            | some time => run w fuel { p with time := { p.time with clock := time } }
            | none => p

/-- The printing of an engine that has just begun to analyse files. -/
def start (time : Timetable) (files : List String) : Printing :=
  closeIfDone { time, receiver := ⟨0⟩, progress := .start files }

/-- Prints until it ends, and shuts the engine down. -/
def finish (w : World) (p : Printing) : Printing :=
  let p' := p.run w (p.time.enough 0)
  { p' with time := p'.time.shutdown w }

/-- The lines printed. -/
def lines (p : Printing) : List String := p.printed.reverse.map fun e => e.toJson.toText

end Printing

end CodeInsight
