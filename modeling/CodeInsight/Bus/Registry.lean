import CodeInsight.Bus.Channel
import CodeInsight.Log

/-!
# The event bus

* handlers register under a kind of event and get a number that no other registration ever has;
* publishing an event calls the handlers registered for its kind **when the publishing began**, in
  the order of registration, and then sends the event to the stream (`EventBus.publish?`);
* a handler may itself register and remove handlers and publish events, which calls handlers in
  turn, and it may fail: a failure is logged and the next handler is called.

What a handler does is a `Reaction`: finitely many steps, each of which may depend on what the ones
before answered. Handlers that call each other without end have no result: `publish?` is given a
bound for how deep they may, and `published?` goes as deep as they do (`EventBus.settles` says
whether they come to an end).
-/

namespace CodeInsight

/-! ## 1. Handlers -/

/-- What a handler may look at when it is called, besides the event: how many calls of handlers and
    how many registrations there were before. -/
structure Surroundings where
  calls : Nat
  registrations : Nat
  deriving DecidableEq, Repr

/-- What a called handler does. -/
inductive Reaction where
  | done
  | fail (message : String)
  | note (text : String) (next : Reaction)
  | register (kind : EventKind) (handler : Surroundings → Event → Reaction)
      (next : Nat → Reaction)
  | remove (kind : EventKind) (id : Option Nat) (next : Nat → Reaction)
  | publish (event : Event) (next : Reaction)

/-- A handler: what it does depends on the event and on what it sees around it. -/
abbrev Handler := Surroundings → Event → Reaction

/-- A handler under its number. -/
structure Registration where
  id : Nat
  kind : EventKind
  handler : Handler

/-- What happened on a bus: a handler was called, one noted something, or something was logged. -/
inductive Notice where
  | called (id : Nat) (event : Event)
  | noted (text : String)
  | logged (line : LogLine)
  deriving DecidableEq

/-- A bus: the registrations in their order, the number of the next one, the number of calls, the
    stream, and what happened that nobody took note of yet, the latest first. -/
structure EventBus where
  registered : List Registration := []
  nextId : Nat := 1
  calls : Nat := 0
  channel : Channel := {}
  notices : List Notice := []

namespace EventBus

instance : Inhabited EventBus := ⟨{}⟩

/-- A bus without handlers. -/
def empty : EventBus := {}

/-! ## 2. Registering -/

/-- The registrations for a kind of event, in their order. -/
def handlersOf (b : EventBus) (kind : EventKind) : List Registration :=
  b.registered.filter fun r => r.kind == kind

/-- The number of registrations for a kind of event. -/
def handlerCount (b : EventBus) (kind : EventKind) : Nat := (b.handlersOf kind).length

/-- Registers a handler; its number. -/
def on (b : EventBus) (kind : EventKind) (handler : Handler) : Nat × EventBus :=
  (b.nextId,
    { b with registered := b.registered ++ [⟨b.nextId, kind, handler⟩], nextId := b.nextId + 1 })

/-- Whether a registration is the one meant: that of a kind with a number or, without a number,
    every one of the kind. -/
def isMeant (kind : EventKind) (id : Option Nat) (r : Registration) : Bool :=
  r.kind == kind && (match id with
    | none => true
    | some n => r.id == n)

/-- Removes the registrations meant; their number. -/
def off (b : EventBus) (kind : EventKind) (id : Option Nat) : Nat × EventBus :=
  (b.registered.countP (isMeant kind id),
    { b with registered := b.registered.filter fun r => !isMeant kind id r })

/-! ## 3. Publishing -/

/-- The bus with one more thing that happened. -/
def notice (b : EventBus) (n : Notice) : EventBus := { b with notices := n :: b.notices }

/-- What is logged of a handler that failed. -/
def failureLine (id : Nat) (event : Event) (message : String) : LogLine :=
  ⟨.error, s!"Event handler SubscriptionId({id}) for {event.kind.name} panicked on " ++
    s!"{event.path}: {message}"⟩

/-- Does what a handler does; the bus, and the message of a failure. -/
def react? (publish : EventBus → Event → Option EventBus) :
    Reaction → EventBus → Option (EventBus × Option String)
  | .done, b => some (b, none)
  | .fail message, b => some (b, some message)
  | .note text next, b => react? publish next (b.notice (.noted text))
  | .register kind handler next, b =>
    let r := b.on kind handler
    react? publish (next r.1) r.2
  | .remove kind id next, b =>
    let r := b.off kind id
    react? publish (next r.1) r.2
  | .publish event next, b =>
    match publish b event with
    | none => none
    | some b' => react? publish next b'

/-- Calls a handler for an event. -/
def call? (publish : EventBus → Event → Option EventBus) (event : Event) (r : Registration)
    (b : EventBus) : Option EventBus :=
  let around : Surroundings := ⟨b.calls, b.nextId - 1⟩
  let b' := { b.notice (.called r.id event) with calls := b.calls + 1 }
  match react? publish (r.handler around event) b' with
  | none => none
  | some (b'', none) => some b''
  | some (b'', some message) => some (b''.notice (.logged (failureLine r.id event message)))

/-- Calls handlers one after the other. -/
def callAll? (publish : EventBus → Event → Option EventBus) (event : Event) :
    List Registration → EventBus → Option EventBus
  | [], b => some b
  | r :: rs, b =>
    match call? publish event r b with
    | none => none
    | some b' => callAll? publish event rs b'

/-- Publishes an event, handlers calling each other at most `depth` deep. -/
def publish? : Nat → EventBus → Event → Option EventBus
  | 0, _, _ => none
  | depth + 1, b, event =>
    match callAll? (publish? depth) event (b.handlersOf event.kind) b with
    | none => none
    | some b' => some { b' with channel := b'.channel.send event }

/-- How deep handlers may call each other at first, and by how much deeper than that they may where
    it does not suffice. -/
def depthBound : Nat := 1000

/-- Whether a depth is tried after another, because handlers call each other deeper than that. -/
def Deepens (b : EventBus) (event : Event) (next depth : Nat) : Prop :=
  publish? depth b event = none ∧ next = depth + depthBound

/-- A depth that handlers called for an event do not exceed, none below `depth`. It is found only
    where there is one. -/
def depthFrom (b : EventBus) (event : Event) (depth : Nat) : Nat :=
  WellFounded.partialExtrinsicFix (Deepens b event)
    (fun depth deeper =>
      match h : publish? depth b event with
      | none => deeper (depth + depthBound) ⟨h, rfl⟩
      | some _ => depth)
    depth

/-- Publishes an event, however deep handlers call each other. If they do so without end there is no
    result. -/
def published? (b : EventBus) (event : Event) : Option EventBus :=
  -- the first depth apart, so that the kernel can evaluate what does not need more
  match publish? depthBound b event with
  | none => publish? (b.depthFrom event (depthBound + depthBound)) b event
  | some b' => some b'

/-- Whether the handlers called for an event come to an end. -/
def settles (b : EventBus) (event : Event) : Bool := (b.published? event).isSome

/-- Publishes an event for which the handlers called come to an end. -/
def publish (b : EventBus) (event : Event) : EventBus := (b.published? event).getD b

/-- What happened since it was last asked for, in its order, and the bus without it. -/
def takeNotices (b : EventBus) : List Notice × EventBus :=
  (b.notices.reverse, { b with notices := [] })

end EventBus

end CodeInsight
