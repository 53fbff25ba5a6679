import CodeInsight.Bus.Event

/-!
# The stream of events

* a `Channel` is everything sent, but only the latest 1024 events can still be received;
* a `Receiver` has a place in the stream; one that fell too far behind is told once how many events
  it lost and goes on with the oldest one kept (`Channel.receive?`);
* `Channel.drain` is everything that waits for a receiver.
-/

namespace CodeInsight

/-- The events sent, the latest first. -/
structure Channel where
  sent : List Event := []

/-- How many events were sent before the one a receiver gets next. -/
structure Receiver where
  next : Nat
  deriving DecidableEq, Repr

/-- What a receiver gets: an event, or the number of events it lost. -/
inductive Delivery where
  | event (e : Event)
  | lagged (n : Nat)
  deriving DecidableEq

namespace Channel

/-- The number of events kept. -/
def capacity : Nat := 1024

/-- The number of events sent. -/
def count (c : Channel) : Nat := c.sent.length

/-- The channel with one more event. -/
def send (c : Channel) (e : Event) : Channel := ⟨e :: c.sent⟩

/-- A new receiver: it gets what is sent from now on. -/
def subscribe (c : Channel) : Receiver := ⟨c.count⟩

/-- The number of events sent that a receiver has not got. -/
def waiting (c : Channel) (r : Receiver) : Nat := c.count - r.next

/-- The next thing a receiver gets, if anything waits for it. -/
def receive? (c : Channel) (r : Receiver) : Option (Delivery × Receiver) :=
  if capacity < c.waiting r then
    some (.lagged (c.waiting r - capacity), ⟨c.count - capacity⟩)
  else
    match c.waiting r with
    | 0 => none
    | n + 1 => c.sent[n]?.map fun e => (.event e, ⟨r.next + 1⟩)

/-- Everything that waits for a receiver, and the receiver after it. -/
def drain (c : Channel) (r : Receiver) : List Delivery × Receiver :=
  let kept := ((c.sent.take (min (c.waiting r) capacity)).reverse).map Delivery.event
  let lost := if capacity < c.waiting r then [Delivery.lagged (c.waiting r - capacity)] else []
  (lost ++ kept, ⟨max r.next c.count⟩)

end Channel

end CodeInsight
