import CodeInsight.Proofs.Bus.Delivery
import Mathlib.Data.List.Nodup

/-!
# The books of the registry

* a `RegistryCall` is a call of `on` or `off` with the bus on which it was made; `publishTold?` is
  `publish?` with the calls that handlers make on the way (`publish?_eq_told`), so the `History` of
  a bus holds all calls ever made of its registry, from outside and from inside handlers;
* a registration is `Standing` if a call made it and none since has removed it;
* each call keeps the books (`Booked.on`, `Booked.off`), and so does whatever is made of calls
  (`History.carries`): **a bus holds exactly the standing registrations, in the order in which they
  were made and under numbers of their own**, and what `off` answers follows from them
  (`EventBus.registry_kept`).
-/

namespace CodeInsight

/-! ## 1. Calls of the registry -/

/-- A call of the registry: the bus on which it is made, and what it asks for. -/
inductive RegistryCall where
  | on (bus : EventBus) (kind : EventKind) (handler : Handler)
  | off (bus : EventBus) (kind : EventKind) (id : Option Nat)

namespace RegistryCall

/-- The bus on which the call is made. -/
def bus : RegistryCall → EventBus
  | on bus _ _ => bus
  | off bus _ _ => bus

/-- The registration that the call makes, under the number it answers. -/
def registration? : RegistryCall → Option Registration
  | on bus kind handler => some ⟨(bus.on kind handler).1, kind, handler⟩
  | off .. => none

/-- How many registrations of a kind the call answers to have removed. -/
def removed (kind : EventKind) : RegistryCall → Nat
  | on .. => 0
  | off bus kind' id => if kind' = kind then (bus.off kind' id).1 else 0

/-- Whether the call asks for the registration to be removed. -/
def Removes (r : Registration) : RegistryCall → Prop
  | on .. => False
  | off _ kind id => kind = r.kind ∧ (id = none ∨ id = some r.id)

end RegistryCall

/-- The registrations that the calls made, in their order; the calls are given the latest first. -/
def registrations (past : List RegistryCall) : List Registration :=
  past.reverse.filterMap (·.registration?)

/-- How many registrations of a kind the calls answered to have removed. -/
def removals (kind : EventKind) : List RegistryCall → Nat
  | [] => 0
  | c :: past => c.removed kind + removals kind past

/-- A call made the registration, and none since has asked for it to be removed. -/
def Standing (past : List RegistryCall) (r : Registration) : Prop :=
  ∃ later c earlier, past = later ++ c :: earlier ∧ c.registration? = some r ∧
    ∀ c' ∈ later, ¬ c'.Removes r

namespace EventBus

/-! ## 2. The calls that handlers make -/

/-- `react?`, with the calls of the registry that are made on the way, the latest first, in front of
    those made before. -/
def reactTold?
    (publish : EventBus → Event → List RegistryCall → Option (EventBus × List RegistryCall)) :
    Reaction → EventBus → List RegistryCall →
      Option ((EventBus × Option String) × List RegistryCall)
  | .done, b, past => some ((b, none), past)
  | .fail message, b, past => some ((b, some message), past)
  | .note text next, b, past => reactTold? publish next (b.notice (.noted text)) past
  | .register kind handler next, b, past =>
    let r := b.on kind handler
    reactTold? publish (next r.1) r.2 (.on b kind handler :: past)
  | .remove kind id next, b, past =>
    let r := b.off kind id
    reactTold? publish (next r.1) r.2 (.off b kind id :: past)
  | .publish event next, b, past =>
    match publish b event past with
    | none => none
    | some (b', past') => reactTold? publish next b' past'

/-- `callAll?` with the calls of the registry. -/
def callAllTold?
    (publish : EventBus → Event → List RegistryCall → Option (EventBus × List RegistryCall))
    (event : Event) :
    List Registration → EventBus → List RegistryCall → Option (EventBus × List RegistryCall)
  | [], b, past => some (b, past)
  | r :: rs, b, past =>
    match reactTold? publish (r.handler b.around event) (b.atCall event r) past with
    | none => none
    | some ((b', failure), past') =>
      callAllTold? publish event rs (b'.afterCall event r failure) past'

/-- `publish?` with the calls of the registry. -/
def publishTold? :
    Nat → EventBus → Event → List RegistryCall → Option (EventBus × List RegistryCall)
  | 0, _, _, _ => none
  | depth + 1, b, event, past =>
    match callAllTold? (publishTold? depth) event (b.handlersOf event.kind) b past with
    | none => none
    | some (b', past') => some (b'.afterCalls event, past')

section Told

variable {publish : EventBus → Event → Option EventBus}
  {told : EventBus → Event → List RegistryCall → Option (EventBus × List RegistryCall)}

theorem react?_eq_told (same : ∀ b event past, (told b event past).map Prod.fst = publish b event)
    (r : Reaction) (b : EventBus) (past : List RegistryCall) :
    (reactTold? told r b past).map Prod.fst = react? publish r b := by
  induction r generalizing b past with
  | done | fail => rfl
  | note _ next ih => exact ih _ _
  | register _ _ next _ ih => exact ih _ _ _
  | remove _ _ next ih => exact ih _ _ _
  | publish event next ih =>
    rw [reactTold?, react?, ← same b event past]
    cases told b event past with
    | none => rfl
    | some after => exact ih _ _

theorem callAll?_eq_told
    (same : ∀ b event past, (told b event past).map Prod.fst = publish b event) (event : Event)
    (handlers : List Registration) (b : EventBus) (past : List RegistryCall) :
    (callAllTold? told event handlers b past).map Prod.fst =
      callAll? publish event handlers b := by
  induction handlers generalizing b past with
  | nil => rfl
  | cons r rs ih =>
    rw [callAllTold?, callAll?, call?_eq, ← react?_eq_told same _ _ past]
    cases reactTold? told (r.handler b.around event) (b.atCall event r) past with
    | none => rfl
    | some after => exact ih _ _

/-- **The calls of the registry are told beside, and change nothing**: with them a publishing leads
    to the same bus. -/
theorem publish?_eq_told (depth : Nat) (b : EventBus) (event : Event)
    (past : List RegistryCall) :
    (publishTold? depth b event past).map Prod.fst = publish? depth b event := by
  induction depth generalizing b event past with
  | zero => rfl
  | succ depth ih =>
    rw [publishTold?, publish?,
      ← callAll?_eq_told (fun b event past => ih b event past) event _ b past]
    cases callAllTold? (publishTold? depth) event (b.handlersOf event.kind) b past with
    | none => rfl
    | some after => rfl

end Told

/-! ## 3. Histories -/

/-- `History past b`: a bus has become `b`, and `past` are all calls of its registry since it was
    made, the latest first. Whatever else happens to a bus leaves its registrations and their
    numbers alone. -/
inductive History : List RegistryCall → EventBus → Prop where
  | empty : History [] .empty
  | on {past : List RegistryCall} {b : EventBus} (h : History past b) (kind : EventKind)
      (handler : Handler) : History (.on b kind handler :: past) (b.on kind handler).2
  | off {past : List RegistryCall} {b : EventBus} (h : History past b) (kind : EventKind)
      (id : Option Nat) : History (.off b kind id :: past) (b.off kind id).2
  | publish {past past' : List RegistryCall} {b b' : EventBus} (h : History past b) {depth : Nat}
      {event : Event} (ends : publishTold? depth b event past = some (b', past')) :
      History past' b'
  | other {past : List RegistryCall} {b b' : EventBus} (h : History past b)
      (registered : b'.registered = b.registered) (nextId : b'.nextId = b.nextId) :
      History past b'

/-- What holds of a bus and its calls whatever calls come. -/
structure Carried (P : List RegistryCall → EventBus → Prop) : Prop where
  on : ∀ past b kind handler, P past b → P (.on b kind handler :: past) (b.on kind handler).2
  off : ∀ past b kind id, P past b → P (.off b kind id :: past) (b.off kind id).2
  other : ∀ past b b', P past b → b'.registered = b.registered → b'.nextId = b.nextId → P past b'

section Carried

variable {P : List RegistryCall → EventBus → Prop} {past past' : List RegistryCall}
  {b b' : EventBus} {event : Event}
  {told : EventBus → Event → List RegistryCall → Option (EventBus × List RegistryCall)}

theorem Carried.react (carried : Carried P)
    (told_ : ∀ b event past after, P past b → told b event past = some after →
      P after.2 after.1) {r : Reaction} {failure : Option String}
    (holds : P past b) (h : reactTold? told r b past = some ((b', failure), past')) :
    P past' b' := by
  induction r generalizing b past with
  | done | fail =>
    cases h
    exact holds
  | note text next ih =>
    exact ih (carried.other _ _ (b.notice (.noted text)) holds rfl rfl) h
  | register kind handler next _ ih => exact ih _ (carried.on _ _ _ _ holds) h
  | remove kind id next ih => exact ih _ (carried.off _ _ _ _ holds) h
  | publish event next ih =>
    rw [reactTold?] at h
    cases first : told b event past with
    | none =>
      rw [first] at h
      cases h
    | some after =>
      rw [first] at h
      exact ih (told_ _ _ _ _ holds first) h

theorem Carried.callAll (carried : Carried P)
    (told_ : ∀ b event past after, P past b → told b event past = some after →
      P after.2 after.1) {handlers : List Registration}
    (holds : P past b) (h : callAllTold? told event handlers b past = some (b', past')) :
    P past' b' := by
  induction handlers generalizing b past with
  | nil =>
    cases h
    exact holds
  | cons r rs ih =>
    rw [callAllTold?] at h
    cases first : reactTold? told (r.handler b.around event) (b.atCall event r) past with
    | none =>
      rw [first] at h
      cases h
    | some after =>
      obtain ⟨⟨b₁, failure⟩, past₁⟩ := after
      rw [first] at h
      have inside := carried.react told_ (carried.other _ _ (b.atCall event r) holds rfl rfl) first
      refine ih (carried.other _ _ _ inside ?_ ?_) h
      · cases failure <;> rfl
      · cases failure <;> rfl

theorem Carried.publish (carried : Carried P) {depth : Nat} (holds : P past b)
    (h : publishTold? depth b event past = some (b', past')) : P past' b' := by
  induction depth generalizing b past event b' past' with
  | zero => cases h
  | succ depth ih =>
    rw [publishTold?] at h
    cases all : callAllTold? (publishTold? depth) event (b.handlersOf event.kind) b past with
    | none =>
      rw [all] at h
      cases h
    | some after =>
      rw [all] at h
      cases h
      have inside := carried.callAll (fun _ _ _ _ holds h => ih holds h) holds all
      exact carried.other _ _ _ inside rfl rfl

/-- **What calls carry holds of every history.** -/
theorem History.carries (carried : Carried P) (start : P [] .empty) (h : History past b) :
    P past b := by
  induction h with
  | empty => exact start
  | on _ kind handler ih => exact carried.on _ _ _ _ ih
  | off _ kind id ih => exact carried.off _ _ _ _ ih
  | publish _ ends ih => exact carried.publish ih ends
  | other _ registered nextId ih => exact carried.other _ _ _ ih registered nextId

end Carried

end EventBus

/-! ## 4. What a bus holds -/

/-- A bus holds what the calls of its registry have left: the registrations are numbered from one
    on, those standing are there, in their order, and what was removed of a kind is what is
    missing. -/
structure Booked (past : List RegistryCall) (b : EventBus) : Prop where
  numbers : (registrations past).map (·.id) = List.range' 1 (registrations past).length
  next : b.nextId = (registrations past).length + 1
  standing : ∀ r, r ∈ b.registered ↔ Standing past r
  order : b.registered.Sublist (registrations past)
  counted : ∀ kind,
    b.handlerCount kind + removals kind past = (registrations past).countP (·.kind == kind)

section Booked

variable {past : List RegistryCall} {b b' : EventBus} {kind : EventKind} {id : Option Nat}
  {handler : Handler} {r : Registration} {c : RegistryCall} {n : Nat}

theorem registrations_on : registrations (.on b kind handler :: past) =
    registrations past ++ [⟨b.nextId, kind, handler⟩] := by
  rw [registrations, List.reverse_cons, List.filterMap_append]
  rfl

theorem registrations_off : registrations (.off b kind id :: past) = registrations past := by
  rw [registrations, List.reverse_cons, List.filterMap_append]
  exact List.append_nil _

theorem standing_cons : Standing (c :: past) r ↔
    c.registration? = some r ∨ Standing past r ∧ ¬ c.Removes r := by
  constructor
  · rintro ⟨later, c', earlier, split, made, none⟩
    cases later with
    | nil =>
      cases split
      exact .inl made
    | cons c'' later =>
      cases split
      obtain ⟨notNow, none⟩ := List.forall_mem_cons.mp none
      exact .inr ⟨⟨later, c', earlier, rfl, made, none⟩, notNow⟩
  · rintro (made | ⟨⟨later, c', earlier, rfl, made, none⟩, notNow⟩)
    · exact ⟨[], c, past, rfl, made, fun _ h => nomatch h⟩
    · exact ⟨c :: later, c', earlier, rfl, made, List.forall_mem_cons.mpr ⟨notNow, none⟩⟩

theorem isMeant_iff :
    EventBus.isMeant kind id r = true ↔ (RegistryCall.off b kind id).Removes r := by
  unfold EventBus.isMeant RegistryCall.Removes
  rw [Bool.and_eq_true, beq_iff_eq]
  cases id with
  | none => exact ⟨fun same => ⟨same.1.symm, .inl rfl⟩, fun same => ⟨same.1.symm, rfl⟩⟩
  | some n =>
    constructor
    · rintro ⟨same, number⟩
      exact ⟨same.symm, .inr (congrArg some (eq_of_beq number).symm)⟩
    · rintro ⟨rfl, none | number⟩
      · cases none
      · cases number
        exact ⟨rfl, beq_self_eq_true _⟩

theorem handlerCount_eq : b.handlerCount kind = b.registered.countP (·.kind == kind) :=
  List.countP_eq_length_filter.symm

/-- What is removed is what is missing. -/
theorem handlerCount_off (b : EventBus) (kind k : EventKind) (id : Option Nat) :
    (b.off kind id).2.handlerCount k + (RegistryCall.off b kind id).removed k =
      b.handlerCount k := by
  have parts := List.countP_eq_countP_filter_add b.registered (·.kind == k)
    (EventBus.isMeant kind id)
  have removed : (b.registered.filter (EventBus.isMeant kind id)).countP (·.kind == k) =
      (RegistryCall.off b kind id).removed k := by
    rw [List.countP_filter, RegistryCall.removed]
    split
    case isTrue same =>
      subst same
      refine List.countP_congr fun r _ => ?_
      simp +contextual [EventBus.isMeant]
    case isFalse other =>
      rw [List.countP_eq_zero]
      intro r _ both
      simp [EventBus.isMeant] at both
      exact other (both.2.1.symm.trans both.1)
  rw [handlerCount_eq, handlerCount_eq, parts, removed, Nat.add_comm]
  simp [EventBus.off]

theorem Booked.empty : Booked [] .empty where
  numbers := rfl
  next := rfl
  standing r := by
    refine ⟨fun h => (nomatch h), ?_⟩
    rintro ⟨later, c, earlier, split, -⟩
    exact absurd split (by simp)
  order := .slnil
  counted _ := rfl

theorem Booked.on (h : Booked past b) (kind : EventKind) (handler : Handler) :
    Booked (.on b kind handler :: past) (b.on kind handler).2 where
  numbers := by
    rw [registrations_on, List.map_append, h.numbers, List.length_append, List.range'_append_1.symm]
    rw [List.map_singleton, h.next, Nat.add_comm]
    rfl
  next := by
    rw [registrations_on, List.length_append, List.length_singleton, ← h.next]
    rfl
  standing r := by
    rw [standing_cons, ← h.standing]
    change r ∈ b.registered ++ [⟨b.nextId, kind, handler⟩] ↔ some _ = some r ∨ _ ∧ ¬ False
    simp [or_comm, eq_comm, EventBus.on]
  order := by
    rw [registrations_on]
    exact h.order.append (List.Sublist.refl _)
  counted k := by
    have before := h.counted k
    rw [handlerCount_eq] at before ⊢
    rw [registrations_on, List.countP_append]
    change (b.registered ++ [(⟨b.nextId, kind, handler⟩ : Registration)]).countP _ + (0 + _) = _
    rw [List.countP_append, Nat.zero_add]
    omega

theorem Booked.off (h : Booked past b) (kind : EventKind) (id : Option Nat) :
    Booked (.off b kind id :: past) (b.off kind id).2 where
  numbers := by rw [registrations_off, h.numbers]
  next := by
    rw [registrations_off, ← h.next]
    rfl
  standing r := by
    rw [standing_cons, ← h.standing, ← isMeant_iff]
    simp [EventBus.off, RegistryCall.registration?]
  order := by
    rw [registrations_off]
    exact (List.filter_sublist).trans h.order
  counted k := by
    have before := h.counted k
    rw [registrations_off, ← before, removals, ← handlerCount_off b kind k id]
    omega

theorem Booked.other (h : Booked past b) (registered : b'.registered = b.registered)
    (nextId : b'.nextId = b.nextId) : Booked past b' where
  numbers := h.numbers
  next := nextId.trans h.next
  standing r := by rw [registered, h.standing]
  order := registered ▸ h.order
  counted k := by
    rw [handlerCount_eq, registered, ← handlerCount_eq]
    exact h.counted k

theorem Booked.carried : EventBus.Carried Booked where
  on _ _ _ _ h := h.on _ _
  off _ _ _ _ h := h.off _ _
  other _ _ _ h registered nextId := h.other registered nextId

/-! ## 5. What `off` answers -/

/-- The numbers of the registrations made are different. -/
theorem Booked.nodup (h : Booked past b) : ((registrations past).map (·.id)).Nodup := by
  rw [h.numbers]
  exact List.nodup_range'

/-- **What stands is removed under its number**, and nothing else is. -/
theorem Booked.off_standing (h : Booked past b) (hr : Standing past r) :
    (b.off r.kind (some r.id)).1 = 1 ∧ ∃ before after, b.registered = before ++ r :: after ∧
      (b.off r.kind (some r.id)).2 = { b with registered := before ++ after } := by
  obtain ⟨before, after, split⟩ := List.append_of_mem ((h.standing r).mpr hr)
  have apart : ((before ++ r :: after).map (·.id)).Nodup :=
    split ▸ (h.order.map _).nodup h.nodup
  have others : ∀ r' ∈ before ++ after, ¬ EventBus.isMeant r.kind (some r.id) r' = true := by
    intro r' there meant
    rw [List.map_append, List.map_cons, List.nodup_middle, ← List.map_append] at apart
    have number := (Bool.and_eq_true_iff.mp meant).2
    exact (List.nodup_cons.mp apart).1 (eq_of_beq number ▸ List.mem_map_of_mem there)
  have itself : EventBus.isMeant r.kind (some r.id) r = true := by
    simp [EventBus.isMeant]
  obtain ⟨before_, after_⟩ := List.forall_mem_append.mp others
  refine ⟨?_, before, after, split, ?_⟩
  · rw [EventBus.off, split, List.countP_append, List.countP_cons_of_pos itself,
      List.countP_eq_zero.mpr before_, List.countP_eq_zero.mpr after_]
  · rw [EventBus.off, split, List.filter_append, List.filter_cons_of_neg (by simp [itself]),
      List.filter_eq_self.mpr (by simpa using before_),
      List.filter_eq_self.mpr (by simpa using after_)]

/-- **Nothing else is removed under a number**: the bus stays as it is. -/
theorem Booked.off_eq (h : Booked past b)
    (none : ¬ ∃ r, Standing past r ∧ r.kind = kind ∧ r.id = n) :
    b.off kind (some n) = (0, b) := by
  have others : ∀ r ∈ b.registered, ¬ EventBus.isMeant kind (some n) r = true := by
    intro r there meant
    obtain ⟨same, number⟩ := Bool.and_eq_true_iff.mp meant
    exact none ⟨r, (h.standing r).mp there, eq_of_beq same, eq_of_beq number⟩
  rw [EventBus.off, List.countP_eq_zero.mpr others, List.filter_eq_self.mpr (by simpa using others)]

/-- Without a number all of a kind are removed. -/
theorem off_all (b : EventBus) (kind : EventKind) :
    b.off kind none = (b.handlerCount kind,
      { b with registered := b.registered.filter fun r => r.kind != kind }) := by
  have meant : EventBus.isMeant kind none = fun r => r.kind == kind := by
    funext r
    exact Bool.and_true _
  rw [EventBus.off, meant, handlerCount_eq]
  rfl

end Booked

/-- `Registry past b`: what can be said of the registrations of a bus after the calls `past`, the
    latest first. -/
structure Registry (past : List RegistryCall) (b : EventBus) : Prop where
  /-- All numbers ever answered are different: they go through from one on. -/
  numbers : ((registrations past).map (·.id)).Nodup ∧
    (registrations past).map (·.id) = List.range' 1 (registrations past).length
  /-- The next number is a new one. -/
  fresh : ∀ kind handler, (b.on kind handler).1 ∉ (registrations past).map (·.id)
  /-- Exactly what stands is there, in the order in which it was registered. -/
  standing : ∀ r, r ∈ b.registered ↔ Standing past r
  order : b.registered.Sublist (registrations past)
  /-- What is registered of a kind is what was ever registered, less what was removed. -/
  counted : ∀ kind,
    b.handlerCount kind + removals kind past = (registrations past).countP (·.kind == kind)
  /-- One registration is removed under a number that stands for the kind. -/
  off_standing : ∀ r, Standing past r →
    (b.off r.kind (some r.id)).1 = 1 ∧ ∃ before after, b.registered = before ++ r :: after ∧
      (b.off r.kind (some r.id)).2 = { b with registered := before ++ after }
  /-- Under any other number nothing is removed, and nothing changes. -/
  off_other : ∀ kind n, (¬ ∃ r, Standing past r ∧ r.kind = kind ∧ r.id = n) →
    b.off kind (some n) = (0, b)
  /-- Without a number all of the kind are removed, and only they. -/
  off_all : ∀ kind, b.off kind none = (b.handlerCount kind,
    { b with registered := b.registered.filter fun r => r.kind != kind })

namespace EventBus

variable {past : List RegistryCall} {b : EventBus}

theorem registry_of_booked (h : Booked past b) : Registry past b where
  numbers := ⟨h.nodup, h.numbers⟩
  fresh kind handler := by
    rw [h.numbers, List.mem_range'_1]
    change ¬ (1 ≤ b.nextId ∧ b.nextId < _)
    rw [h.next]
    omega
  standing := h.standing
  order := h.order
  counted := h.counted
  off_standing _ hr := h.off_standing hr
  off_other _ _ none := h.off_eq none
  off_all := off_all b

/-- The bus holds what the calls have left, and so did each bus on which one of them was made. -/
def BookedThroughout (past : List RegistryCall) (b : EventBus) : Prop :=
  Booked past b ∧ ∀ later c earlier, past = later ++ c :: earlier → Booked earlier c.bus

/-- One more call, made on a bus that holds what those before it have left. -/
theorem BookedThroughout.call {c : RegistryCall} (h : BookedThroughout past c.bus)
    (after : Booked (c :: past) b) : BookedThroughout (c :: past) b := by
  refine ⟨after, fun later c' earlier split => ?_⟩
  cases later with
  | nil =>
    cases split
    exact h.1
  | cons _ later =>
    cases split
    exact h.2 later c' earlier rfl

theorem BookedThroughout.carried : Carried BookedThroughout where
  on _ _ kind handler h := h.call (c := .on _ kind handler) (h.1.on kind handler)
  off _ _ kind id h := h.call (c := .off _ kind id) (h.1.off kind id)
  other _ _ _ h registered nextId := ⟨h.1.other registered nextId, h.2⟩

/-- **The registry keeps its books**, whatever calls are made of it, from outside and from inside
    handlers: each call of a history was made on a bus that held what the calls before it had left,
    and so does the bus at its end. -/
theorem registry_kept (h : History past b) :
    (∀ later c earlier, past = later ++ c :: earlier → Registry earlier c.bus) ∧
      Registry past b := by
  have start : BookedThroughout [] .empty :=
    ⟨.empty, fun later c earlier split => absurd split (by simp)⟩
  obtain ⟨booked, calls⟩ := h.carries BookedThroughout.carried start
  exact ⟨fun later c earlier split => registry_of_booked (calls later c earlier split),
    registry_of_booked booked⟩

/-- A handler that, when it is called, registers another and removes itself: its number is not
    removed a second time. -/
theorem registry_kept_selfRemoving :
    ∃ past b, History past b ∧ (registrations past).map (·.id) = [1, 2] ∧
      b.handlerCount .failed = 1 ∧ b.off .failed (some 1) = (0, b) := by
  let handler : Handler := fun _ _ =>
    .register .failed (fun _ _ => .done) fun _ => .remove .failed (some 1) fun _ => .done
  let event : Event := .failed "a.ts" "gone" ⟨0, 0, by decide, by decide⟩
  have published : History _ _ := (History.empty.on .failed handler).publish
    (show publishTold? 1 _ event _ = some (_, _) from rfl)
  obtain ⟨-, kept⟩ := registry_kept published
  refine ⟨_, _, published, ?_, ?_, kept.off_other .failed 1 ?_⟩
  · rfl
  · rfl
  · rintro ⟨r, standing, -, number⟩
    have there := (kept.standing r).mpr standing
    change r ∈ [(⟨2, .failed, fun _ _ => .done⟩ : Registration)] at there
    rw [List.mem_singleton.mp there] at number
    cases number

end EventBus

end CodeInsight
