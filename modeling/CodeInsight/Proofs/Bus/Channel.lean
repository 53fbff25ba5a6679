import CodeInsight.Bus.Registry

/-!
# What a receiver gets

* `Channel.order` is the stream in its order; a receiver that is not too far behind gets the event
  at its place (`receive?_of_le`), one that is gets no event at first: it is told how many it lost
  and goes on as many places further (`receive?_of_lt`);
* a bus that nobody registered with sends an event and does nothing else
  (`EventBus.publish_of_unheard`).
-/

namespace CodeInsight

namespace Channel

variable {c : Channel} {r r' : Receiver}

/-- The events sent, in their order. -/
def order (c : Channel) : List Event := c.sent.reverse

@[simp] theorem length_order (c : Channel) : c.order.length = c.count := by
  simp [order, count]

@[simp] theorem order_send (c : Channel) (event : Event) :
    (c.send event).order = c.order ++ [event] := by
  simp [order, send]

/-- **A receiver that is not too far behind gets the next event.** -/
theorem receive?_of_le (h : c.waiting r ≤ capacity) :
    c.receive? r = c.order[r.next]?.map fun event => (.event event, ⟨r.next + 1⟩) := by
  have near : ¬ capacity < c.waiting r := by omega
  rw [receive?, if_neg near]
  cases hw : c.waiting r with
  | zero =>
    have all : c.order.length ≤ r.next := by
      rw [length_order]
      exact Nat.sub_eq_zero_iff_le.mp hw
    rw [List.getElem?_eq_none all]
    rfl
  | succ n =>
    have place : n = c.sent.length - 1 - r.next := by
      have hn : c.sent.length - r.next = n + 1 := hw
      omega
    have there : r.next < c.sent.length := by
      have hn : c.sent.length - r.next = n + 1 := hw
      omega
    rw [order, List.getElem?_reverse there, place]

/-- **A receiver that is too far behind** gets no event, but is told how many it lost. -/
theorem receive?_of_lt (h : capacity < c.waiting r) :
    c.receive? r =
      some (.lagged (c.waiting r - capacity), ⟨r.next + (c.waiting r - capacity)⟩) := by
  have place : c.count - capacity = r.next + (c.waiting r - capacity) := by
    have hw : c.waiting r = c.count - r.next := rfl
    omega
  rw [receive?, if_pos h, place]

/-- An event that is received stands at the place of the receiver, which is not too far behind. -/
theorem receive?_event {event : Event} (h : c.receive? r = some (.event event, r')) :
    c.order[r.next]? = some event ∧ r' = ⟨r.next + 1⟩ ∧ c.waiting r ≤ capacity := by
  by_cases near : c.waiting r ≤ capacity
  · rw [receive?_of_le near] at h
    obtain ⟨event', there, hr⟩ := Option.map_eq_some_iff.mp h
    cases hr
    exact ⟨there, rfl, near⟩
  · rw [receive?_of_lt (Nat.lt_of_not_le near)] at h
    cases h

/-- A receiver that was told of a loss was too far behind by as many events, and has gone on by as
    many places. -/
theorem receive?_lagged {n : Nat} (h : c.receive? r = some (.lagged n, r')) :
    r' = ⟨r.next + n⟩ ∧ r.next + n ≤ c.order.length ∧ n = c.waiting r - capacity := by
  by_cases near : c.waiting r ≤ capacity
  · rw [receive?_of_le near] at h
    obtain ⟨event', -, hr⟩ := Option.map_eq_some_iff.mp h
    cases hr
  · rw [receive?_of_lt (Nat.lt_of_not_le near)] at h
    simp only [Option.some.injEq, Prod.mk.injEq, Delivery.lagged.injEq] at h
    obtain ⟨rfl, rfl⟩ := h
    have hw : c.waiting r = c.count - r.next := rfl
    have length := c.length_order
    exact ⟨rfl, by omega, rfl⟩

end Channel

namespace EventBus

variable {b : EventBus}

theorem publish?_of_unheard (h : b.registered = []) (depth : Nat) (event : Event) :
    publish? (depth + 1) b event = some { b with channel := b.channel.send event } := by
  have nobody : b.handlersOf event.kind = [] := by
    rw [handlersOf, h]
    rfl
  rw [publish?, nobody]
  rfl

theorem published?_of_unheard (h : b.registered = []) (event : Event) :
    b.published? event = some { b with channel := b.channel.send event } := by
  rw [published?, depthBound, publish?_of_unheard h 999 event]

/-- Where nobody has registered, an event goes out and nothing else happens. -/
theorem publish_of_unheard (h : b.registered = []) (event : Event) :
    b.publish event = { b with channel := b.channel.send event } := by
  have once := published?_of_unheard h event
  exact congrArg (·.getD b) once

theorem settles_of_unheard (h : b.registered = []) (event : Event) : b.settles event = true := by
  rw [settles, published?_of_unheard h event]
  rfl

end EventBus

end CodeInsight
