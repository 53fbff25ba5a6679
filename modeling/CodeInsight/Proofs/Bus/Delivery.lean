import CodeInsight.Proofs.Bus.Channel

/-!
# Whom a publishing calls, and what the stream gets

* a `Publishing` is what happened from the beginning of a publishing to its end, with the
  publishings from inside the handlers called; `Publishing.Ran` says what it makes of the bus, and
  leaves open **which** handlers are called;
* the calls of handlers and the events sent, in the order in which they happen, are its
  `Publishing.course`: an event is sent when its publishing ends;
* **each publishing, however deep inside another, calls those who were registered for the kind of
  its event when it began**, once each and in their order, and the stream gets every event when its
  publishing ends; and whatever ends that way, `publish?` arrives at (`EventBus.delivers`);
* a depth that suffices is found if there is one (`EventBus.publish?_depthFrom`), so without a bound
  a publishing has a result exactly if it ends (`EventBus.published?_eq_some_iff`).
-/

namespace CodeInsight

/-! ## 1. What happens while an event is published -/

/-- A call of a handler: what is published from inside it, and the message of a failure. -/
structure HandlerCall (α : Type) where
  handler : Registration
  inside : List α
  failure : Option String

/-- A publishing from its beginning to its end: the bus on which it began, the event, and the calls
    of handlers that it made. -/
inductive Publishing where
  | mk (begun : EventBus) (event : Event) (calls : List (HandlerCall Publishing))

/-- What others see of a publishing: a handler is called, an event is sent. -/
inductive DeliveryStep where
  | called (id : Nat) (event : Event)
  | sent (event : Event)

namespace DeliveryStep

/-- Who is called for which event, if somebody is. -/
def called? : DeliveryStep → Option (Nat × Event)
  | called id event => some (id, event)
  | sent _ => none

/-- The event sent, if one is. -/
def sent? : DeliveryStep → Option Event
  | called _ _ => none
  | sent event => some event

end DeliveryStep

namespace Publishing

/-- The bus on which it began. -/
def begun : Publishing → EventBus
  | mk begun _ _ => begun

/-- The event published. -/
def event : Publishing → Event
  | mk _ event _ => event

/-- The calls of handlers, in their order. -/
def calls : Publishing → List (HandlerCall Publishing)
  | mk _ _ calls => calls

/-- Whether a publishing is another or lies inside it, at any depth. -/
inductive Within : Publishing → Publishing → Prop where
  | self (p : Publishing) : Within p p
  | inside {p q r : Publishing} {c : HandlerCall Publishing} (called : c ∈ p.calls)
      (directly : q ∈ c.inside) (deeper : Within r q) : Within r p

/-- Whether handlers call each other less than `depth` deep. -/
def NestsWithin : Nat → Publishing → Prop
  | 0, _ => False
  | depth + 1, p => ∀ c ∈ p.calls, ∀ q ∈ c.inside, q.NestsWithin depth

theorem NestsWithin.mono {p : Publishing} {depth more : Nat} (h : p.NestsWithin depth)
    (le : depth ≤ more) : p.NestsWithin more := by
  induction depth generalizing p more with
  | zero => exact h.elim
  | succ depth ih =>
    cases more with
    | zero => cases le
    | succ more => exact fun c hc q hq => ih (h c hc q hq) (Nat.le_of_succ_le_succ le)

mutual

/-- What happens, in its order: the calls, each with what happens inside it, and at last the event
    is sent. -/
def course : Publishing → List DeliveryStep
  | mk _ event calls => callsCourse event calls ++ [.sent event]

/-- What happens in calls of handlers for an event. -/
def callsCourse (event : Event) : List (HandlerCall Publishing) → List DeliveryStep
  | [] => []
  | c :: cs => callCourse event c ++ callsCourse event cs

/-- What happens in one call. -/
def callCourse (event : Event) : HandlerCall Publishing → List DeliveryStep
  | ⟨handler, inside, _⟩ => .called handler.id event :: insideCourse inside

/-- What happens in publishings one after the other. -/
def insideCourse : List Publishing → List DeliveryStep
  | [] => []
  | p :: ps => p.course ++ insideCourse ps

end

theorem callsCourse_cons (event : Event) (c : HandlerCall Publishing)
    (cs : List (HandlerCall Publishing)) :
    callsCourse event (c :: cs) =
      .called c.handler.id event :: (insideCourse c.inside ++ callsCourse event cs) := by
  cases c
  rfl

theorem insideCourse_append (ps qs : List Publishing) :
    insideCourse (ps ++ qs) = insideCourse ps ++ insideCourse qs := by
  induction ps with
  | nil => rfl
  | cons p ps ih => simp [insideCourse, ih]

theorem callsCourse_append (event : Event) (cs ds : List (HandlerCall Publishing)) :
    callsCourse event (cs ++ ds) = callsCourse event cs ++ callsCourse event ds := by
  induction cs with
  | nil => rfl
  | cons c cs ih => simp [callsCourse, ih]

/-- What is published from inside a handler runs its whole course, up to the sending of its event,
    before the event being handled is sent. -/
theorem course_of_inside {p q : Publishing} {c : HandlerCall Publishing} (called : c ∈ p.calls)
    (directly : q ∈ c.inside) :
    ∃ before behind, p.course = before ++ q.course ++ behind ++ [.sent p.event] := by
  obtain ⟨begun, event, calls⟩ := p
  obtain ⟨cs, ds, split⟩ := List.append_of_mem called
  obtain ⟨ps, qs, within⟩ := List.append_of_mem directly
  dsimp only [Publishing.calls] at split
  refine ⟨callsCourse event cs ++ .called c.handler.id event :: insideCourse ps,
    insideCourse qs ++ callsCourse event ds, ?_⟩
  rw [course, split, callsCourse_append, callsCourse_cons, within, insideCourse_append,
    insideCourse]
  simp [Publishing.event]

end Publishing

/-! ## 2. What it makes of the bus -/

namespace EventBus

/-- The bus on which a handler is called. -/
def atCall (b : EventBus) (event : Event) (r : Registration) : EventBus :=
  { b.notice (.called r.id event) with calls := b.calls + 1 }

/-- What a called handler sees around it. -/
def around (b : EventBus) : Surroundings := ⟨b.calls, b.nextId - 1⟩

/-- The bus after a call: a failure is logged. -/
def afterCall (b : EventBus) (event : Event) (r : Registration) (failure : Option String) :
    EventBus :=
  match failure with
  | none => b
  | some message => b.notice (.logged (failureLine r.id event message))

/-- The bus after all calls: the event is sent. -/
def afterCalls (b : EventBus) (event : Event) : EventBus :=
  { b with channel := b.channel.send event }

end EventBus

/-- `Does ran reaction b inside b' failure`: the reaction leads from the bus `b` to `b'`, publishes
    `inside` in its course and ends with the failure, if one is given. What a publishing leads to
    says `ran`. -/
inductive Does (ran : Publishing → EventBus → Prop) :
    Reaction → EventBus → List Publishing → EventBus → Option String → Prop where
  | done (b : EventBus) : Does ran .done b [] b none
  | fail (message : String) (b : EventBus) : Does ran (.fail message) b [] b (some message)
  | note {text : String} {next : Reaction} {b b' : EventBus} {inside : List Publishing}
      {failure : Option String} (rest : Does ran next (b.notice (.noted text)) inside b' failure) :
      Does ran (.note text next) b inside b' failure
  | register {kind : EventKind} {handler : Handler} {next : Nat → Reaction} {b b' : EventBus}
      {inside : List Publishing} {failure : Option String}
      (rest : Does ran (next (b.on kind handler).1) (b.on kind handler).2 inside b' failure) :
      Does ran (.register kind handler next) b inside b' failure
  | remove {kind : EventKind} {id : Option Nat} {next : Nat → Reaction} {b b' : EventBus}
      {inside : List Publishing} {failure : Option String}
      (rest : Does ran (next (b.off kind id).1) (b.off kind id).2 inside b' failure) :
      Does ran (.remove kind id next) b inside b' failure
  | publish {p : Publishing} {next : Reaction} {b' b'' : EventBus} {inside : List Publishing}
      {failure : Option String} (first : ran p b') (rest : Does ran next b' inside b'' failure) :
      Does ran (.publish p.event next) p.begun (p :: inside) b'' failure

/-- `Made ran b event calls b'`: the calls of handlers for the event, one after the other, lead from
    the bus `b` to `b'`. -/
inductive Made (ran : Publishing → EventBus → Prop) :
    EventBus → Event → List (HandlerCall Publishing) → EventBus → Prop where
  | none (b : EventBus) (event : Event) : Made ran b event [] b
  | call {event : Event} {c : HandlerCall Publishing} {cs : List (HandlerCall Publishing)}
      {b b' b'' : EventBus}
      (does : Does ran (c.handler.handler b.around event) (b.atCall event c.handler) c.inside b'
        c.failure)
      (rest : Made ran (b'.afterCall event c.handler c.failure) event cs b'') :
      Made ran b event (c :: cs) b''

/-- `p.Ran b'`: what `p` says happened, whoever it says was called, and it left the bus `b'`. -/
inductive Publishing.Ran : Publishing → EventBus → Prop where
  | mk {event : Event} {calls : List (HandlerCall Publishing)} {b b' : EventBus}
      (made : Made Publishing.Ran b event calls b') :
      Ran (.mk b event calls) (b'.afterCalls event)

section Reacting

variable {ran ran' : Publishing → EventBus → Prop} {publish : EventBus → Event → Option EventBus}
  {r : Reaction} {event : Event} {b b' : EventBus} {inside : List Publishing}
  {failure : Option String} {calls : List (HandlerCall Publishing)}

theorem Does.mono (h : Does ran r b inside b' failure)
    (imp : ∀ p ∈ inside, ∀ b', ran p b' → ran' p b') : Does ran' r b inside b' failure := by
  induction h with
  | done b => exact .done b
  | fail message b => exact .fail message b
  | note _ ih => exact .note (ih imp)
  | register _ ih => exact .register (ih imp)
  | remove _ ih => exact .remove (ih imp)
  | publish first _ ih =>
    have others := ih fun p hp => imp p (List.mem_cons_of_mem _ hp)
    exact .publish (imp _ List.mem_cons_self _ first) others

/-- What is published from inside a reaction ran. -/
theorem Does.exists_ran (h : Does ran r b inside b' failure) : ∀ p ∈ inside, ∃ b', ran p b' := by
  induction h with
  | done | fail => exact fun p hp => nomatch hp
  | note _ ih | register _ ih | remove _ ih => exact ih
  | publish first _ ih =>
    intro p hp
    rcases List.mem_cons.mp hp with rfl | later
    · exact ⟨_, first⟩
    · exact ih p later

/-- A reaction that ends does something. -/
theorem Does.of_react? (hran : ∀ b event b', publish b event = some b' →
      ∃ p : Publishing, p.begun = b ∧ p.event = event ∧ ran p b')
    (h : EventBus.react? publish r b = some (b', failure)) :
    ∃ inside, Does ran r b inside b' failure := by
  induction r generalizing b with
  | done =>
    cases h
    exact ⟨[], .done _⟩
  | fail message =>
    cases h
    exact ⟨[], .fail message _⟩
  | note text next ih =>
    obtain ⟨inside, rest⟩ := ih h
    exact ⟨inside, .note rest⟩
  | register kind handler next _ ih =>
    obtain ⟨inside, rest⟩ := ih _ h
    exact ⟨inside, .register rest⟩
  | remove kind id next ih =>
    obtain ⟨inside, rest⟩ := ih _ h
    exact ⟨inside, .remove rest⟩
  | publish event next ih =>
    rw [EventBus.react?] at h
    cases hp : publish b event with
    | none =>
      rw [hp] at h
      cases h
    | some b₁ =>
      rw [hp] at h
      obtain ⟨p, rfl, rfl, first⟩ := hran b event b₁ hp
      obtain ⟨inside, rest⟩ := ih h
      exact ⟨p :: inside, .publish first rest⟩

/-- What a reaction does is what it ends with. -/
theorem Does.react? (h : Does ran r b inside b' failure)
    (hpublish : ∀ p ∈ inside, ∀ b', ran p b' → publish p.begun p.event = some b') :
    EventBus.react? publish r b = some (b', failure) := by
  induction h with
  | done | fail => rfl
  | note _ ih | register _ ih | remove _ ih => exact ih hpublish
  | publish first _ ih =>
    have others := ih fun p hp => hpublish p (List.mem_cons_of_mem _ hp)
    rw [EventBus.react?, hpublish _ List.mem_cons_self _ first]
    exact others

theorem EventBus.call?_eq (publish : EventBus → Event → Option EventBus) (event : Event)
    (handler : Registration) (b : EventBus) :
    call? publish event handler b =
      (EventBus.react? publish (handler.handler b.around event) (b.atCall event handler)).map
        fun after => after.1.afterCall event handler after.2 := by
  unfold call? around atCall
  dsimp only
  rcases EventBus.react? publish (handler.handler _ event) _ with _ | ⟨b', _ | message⟩ <;> rfl

theorem Made.mono (h : Made ran b event calls b')
    (imp : ∀ c ∈ calls, ∀ p ∈ c.inside, ∀ b', ran p b' → ran' p b') :
    Made ran' b event calls b' := by
  induction h with
  | none b event => exact .none b event
  | call does _ ih =>
    have others := ih fun c hc => imp c (List.mem_cons_of_mem _ hc)
    exact .call (does.mono (imp _ List.mem_cons_self)) others

theorem Made.exists_ran (h : Made ran b event calls b') :
    ∀ c ∈ calls, ∀ p ∈ c.inside, ∃ b', ran p b' := by
  induction h with
  | none => exact fun c hc => nomatch hc
  | call does _ ih =>
    intro c hc
    rcases List.mem_cons.mp hc with rfl | later
    · exact does.exists_ran
    · exact ih c later

/-- **Calls that end are made of exactly the handlers given**, in their order, whatever one of them
    does or however it fails. -/
theorem Made.of_callAll? (hran : ∀ b event b', publish b event = some b' →
      ∃ p : Publishing, p.begun = b ∧ p.event = event ∧ ran p b') {handlers : List Registration}
    (h : EventBus.callAll? publish event handlers b = some b') :
    ∃ calls, calls.map (·.handler) = handlers ∧ Made ran b event calls b' := by
  induction handlers generalizing b with
  | nil =>
    cases h
    exact ⟨[], rfl, .none _ event⟩
  | cons handler handlers ih =>
    rw [EventBus.callAll?, EventBus.call?_eq] at h
    cases hr : EventBus.react? publish (handler.handler b.around event)
        (b.atCall event handler) with
    | none =>
      rw [hr] at h
      cases h
    | some after =>
      obtain ⟨b₁, failure⟩ := after
      rw [hr] at h
      obtain ⟨inside, does⟩ := Does.of_react? hran hr
      obtain ⟨calls, same, rest⟩ := ih h
      refine ⟨⟨handler, inside, failure⟩ :: calls, ?_, .call does rest⟩
      rw [List.map_cons, same]

theorem Made.callAll? (h : Made ran b event calls b')
    (hpublish : ∀ c ∈ calls, ∀ p ∈ c.inside, ∀ b', ran p b' →
      publish p.begun p.event = some b') :
    EventBus.callAll? publish event (calls.map (·.handler)) b = some b' := by
  induction h with
  | none => rfl
  | call does _ ih =>
    have others := ih fun c hc => hpublish c (List.mem_cons_of_mem _ hc)
    rw [List.map_cons, EventBus.callAll?, EventBus.call?_eq,
      does.react? (hpublish _ List.mem_cons_self)]
    exact others

end Reacting

/-! ## 3. What others see -/

namespace EventBus

/-- Who was called for which event so far, in the order of the calls. -/
def called (b : EventBus) : List (Nat × Event) :=
  (b.notices.filterMap fun
    | .called id event => some (id, event)
    | _ => none).reverse

/-- `b.Shows steps b'`: on the way from the bus `b` to `b'` others see these steps. -/
structure Shows (b : EventBus) (steps : List DeliveryStep) (b' : EventBus) : Prop where
  called : b'.called = b.called ++ steps.filterMap DeliveryStep.called?
  sent : b'.channel.order = b.channel.order ++ steps.filterMap DeliveryStep.sent?

namespace Shows

variable {b b' b'' : EventBus} {steps steps' : List DeliveryStep}

theorem refl (b : EventBus) : b.Shows [] b := ⟨by simp, by simp⟩

theorem trans (h : b.Shows steps b') (h' : b'.Shows steps' b'') :
    b.Shows (steps ++ steps') b'' := by
  constructor
  · rw [h'.called, h.called, List.filterMap_append, List.append_assoc]
  · rw [h'.sent, h.sent, List.filterMap_append, List.append_assoc]

/-- What is seen from a bus on is seen from each on which the same was called and sent. -/
theorem of_same (h : b'.Shows steps b'') (called : b'.called = b.called)
    (sent : b'.channel = b.channel) : b.Shows steps b'' :=
  ⟨called ▸ h.called, sent ▸ h.sent⟩

theorem afterCall (b : EventBus) (event : Event) (r : Registration) (failure : Option String) :
    b.Shows [] (b.afterCall event r failure) := by
  cases failure with
  | none => exact refl b
  | some message => exact (refl _).of_same rfl rfl

theorem atCall (b : EventBus) (event : Event) (r : Registration) :
    b.Shows [.called r.id event] (b.atCall event r) := by
  constructor
  · simp [EventBus.atCall, EventBus.called, notice, DeliveryStep.called?]
  · simp [EventBus.atCall, notice, DeliveryStep.sent?]

theorem afterCalls (b : EventBus) (event : Event) :
    b.Shows [.sent event] (b.afterCalls event) := by
  constructor
  · simp [EventBus.afterCalls, EventBus.called, DeliveryStep.called?]
  · simp [EventBus.afterCalls, DeliveryStep.sent?]

end Shows

end EventBus

open EventBus (Shows)

section Seen

variable {ran : Publishing → EventBus → Prop} {r : Reaction} {event : Event} {b b' : EventBus}
  {inside : List Publishing} {failure : Option String} {calls : List (HandlerCall Publishing)}

theorem Does.shows (h : Does ran r b inside b' failure)
    (hran : ∀ p ∈ inside, ∀ b', ran p b' → p.begun.Shows p.course b') :
    b.Shows (Publishing.insideCourse inside) b' := by
  induction h with
  | done b | fail _ b => exact .refl b
  | note _ ih | register _ ih | remove _ ih => exact (ih hran).of_same rfl rfl
  | publish first _ ih =>
    have others := ih fun p hp => hran p (List.mem_cons_of_mem _ hp)
    exact (hran _ List.mem_cons_self _ first).trans others

theorem Made.shows (h : Made ran b event calls b')
    (hran : ∀ c ∈ calls, ∀ p ∈ c.inside, ∀ b', ran p b' → p.begun.Shows p.course b') :
    b.Shows (Publishing.callsCourse event calls) b' := by
  induction h with
  | none b => exact .refl b
  | call does _ ih =>
    have within := does.shows (hran _ List.mem_cons_self)
    have others := ih fun c hc => hran c (List.mem_cons_of_mem _ hc)
    rw [Publishing.callsCourse_cons]
    exact (Shows.atCall _ _ _).trans (within.trans ((Shows.afterCall _ _ _ _).trans others))

end Seen

namespace Publishing

variable {p : Publishing} {b' : EventBus} {depth : Nat}

/-- **Others see the course of a publishing**: every call, and every event when its publishing
    ends. Induction on how deep it nests. -/
theorem Ran.shows (h : p.Ran b') (nests : p.NestsWithin depth) : p.begun.Shows p.course b' := by
  induction depth generalizing p b' with
  | zero => exact nests.elim
  | succ depth ih =>
    cases h with
    | mk made =>
      have calls := made.shows fun c hc q hq b' hr => ih hr (nests c hc q hq)
      exact calls.trans (.afterCalls _ _)

/-- Whether each publishing within `p` calls those who were registered for the kind of its event
    when it began, once each and in the order in which they registered. -/
def Faithful (p : Publishing) : Prop :=
  ∀ q : Publishing, q.Within p → q.calls.map (·.handler) = q.begun.handlersOf q.event.kind

theorem faithful_iff :
    p.Faithful ↔ p.calls.map (·.handler) = p.begun.handlersOf p.event.kind ∧
      ∀ c ∈ p.calls, ∀ q ∈ c.inside, q.Faithful := by
  constructor
  · intro h
    exact ⟨h p (.self p), fun c hc q hq r hr => h r (.inside hc hq hr)⟩
  · rintro ⟨own, inside⟩ q hq
    cases hq with
    | self => exact own
    | inside called directly deeper => exact inside _ called _ directly q deeper

end Publishing

/-! ## 4. Delivery -/

namespace EventBus

variable {depth : Nat} {b b' : EventBus} {event : Event}

/-- **What ends is faithful, and what is faithful ends.** Induction on how deep handlers call each
    other. -/
theorem publish?_eq_some_iff :
    publish? depth b event = some b' ↔
      ∃ p : Publishing, p.begun = b ∧ p.event = event ∧ p.Ran b' ∧ p.NestsWithin depth ∧
        p.Faithful := by
  induction depth generalizing b b' event with
  | zero =>
    constructor
    · intro h
      cases h
    · rintro ⟨_, -, -, -, nests, -⟩
      exact nests.elim
  | succ depth ih =>
    rw [publish?]
    constructor
    · intro h
      cases hc : callAll? (publish? depth) event (b.handlersOf event.kind) b with
      | none =>
        rw [hc] at h
        cases h
      | some b₁ =>
        rw [hc] at h
        cases h
        obtain ⟨calls, called, made⟩ := Made.of_callAll? (fun b event b' => ih.mp) hc
        have inside : ∀ c ∈ calls, ∀ q ∈ c.inside, q.NestsWithin depth ∧ q.Faithful := by
          intro c hc q hq
          obtain ⟨_, hr⟩ := made.exists_ran c hc q hq
          exact hr.2
        refine ⟨.mk b event calls, rfl, rfl, .mk (made.mono fun _ _ _ _ _ hr => hr.1),
          fun c hc q hq => (inside c hc q hq).1, ?_⟩
        exact Publishing.faithful_iff.mpr ⟨called, fun c hc q hq => (inside c hc q hq).2⟩
    · rintro ⟨_, rfl, rfl, ran, nests, faithful⟩
      cases ran with
      | @mk event calls b b' made =>
        obtain ⟨own, deeper⟩ := Publishing.faithful_iff.mp faithful
        have ends : ∀ c ∈ calls, ∀ q ∈ c.inside, ∀ after, q.Ran after →
            publish? depth q.begun q.event = some after := by
          intro c hc q hq after hr
          exact ih.mpr ⟨q, rfl, rfl, hr, nests c hc q hq, deeper c hc q hq⟩
        have all := made.callAll? ends
        dsimp only [Publishing.begun, Publishing.event, Publishing.calls] at own ⊢
        rw [← own, all]
        rfl

/-- What ends with handlers calling each other so deep ends in the same way if they may call each
    other deeper. -/
theorem publish?_mono {more : Nat} (h : publish? depth b event = some b') (le : depth ≤ more) :
    publish? more b event = some b' := by
  obtain ⟨p, begun, same, ran, nests, faithful⟩ := publish?_eq_some_iff.mp h
  exact publish?_eq_some_iff.mpr ⟨p, begun, same, ran, nests.mono le, faithful⟩

/-- However deep handlers may call each other, what ends does so in one way. -/
theorem publish?_unique {more : Nat} {b'' : EventBus} (h : publish? depth b event = some b')
    (h' : publish? more b event = some b'') : b' = b'' := by
  have deeper := publish?_mono h (Nat.le_max_left depth more)
  rw [publish?_mono h' (Nat.le_max_right depth more)] at deeper
  exact (Option.some.inj deeper).symm

/-- The search for a depth comes to an end where there is one: it goes on only below it. Induction
    on how far below. -/
theorem acc_deepens {more : Nat} (h : publish? more b event = some b') (depth : Nat) :
    Acc (Deepens b event) depth := by
  induction distance : more - depth using Nat.strongRecOn generalizing depth with
  | _ n ih =>
    refine .intro _ fun next goesOn => ?_
    obtain ⟨short, rfl⟩ := goesOn
    have deeper : depth < more := by
      refine Nat.lt_of_not_le fun enough => ?_
      rw [publish?_mono h enough] at short
      cases short
    have nearer : more - (depth + depthBound) < n := by
      unfold depthBound
      omega
    exact ih _ nearer _ rfl

/-- The depth that is found suffices. Induction on the search. -/
theorem publish?_depthFrom {more : Nat} (h : publish? more b event = some b') (depth : Nat) :
    publish? (b.depthFrom event depth) b event = some b' := by
  have ends := acc_deepens h depth
  induction ends with
  | intro depth below ih =>
    rw [depthFrom, WellFounded.partialExtrinsicFix_eq_apply_of_acc (.intro _ below)]
    split
    case h_1 short => exact ih _ ⟨short, rfl⟩
    case h_2 enough => rw [enough, publish?_unique enough h]

/-- **A publishing has a result if it ends**, however deep handlers call each other. -/
theorem published?_eq_some_iff :
    b.published? event = some b' ↔ ∃ depth, publish? depth b event = some b' := by
  rw [published?]
  constructor
  · intro h
    split at h
    case h_1 => exact ⟨_, h⟩
    case h_2 enough => exact ⟨_, enough.trans h⟩
  · rintro ⟨more, h⟩
    split
    case h_1 => exact publish?_depthFrom h _
    case h_2 enough => rw [publish?_unique enough h]

theorem settles_iff : b.settles event = true ↔ ∃ depth b', publish? depth b event = some b' := by
  rw [settles, Option.isSome_iff_exists]
  simp only [published?_eq_some_iff]
  exact exists_comm

/-- **Delivery.** A publishing ends, handlers calling each other at most `depth` deep, exactly if
    some finite course of it does in which each publishing, the one asked for and all those from
    inside handlers, calls those who were registered for the kind of its event when it began, once
    each and in the order in which they registered: whoever registers or is removed meanwhile, and
    whoever fails. Then these are the calls of handlers, and the stream has got every event of the
    course once, in the order in which the publishings ended: those published from inside a handler
    before the event being handled. -/
theorem delivers (depth : Nat) (b : EventBus) (event : Event) (b' : EventBus) :
    publish? depth b event = some b' ↔
      ∃ p : Publishing, p.begun = b ∧ p.event = event ∧ p.Ran b' ∧ p.NestsWithin depth ∧
        (∀ q : Publishing, q.Within p →
          q.calls.map (·.handler) = q.begun.handlersOf q.event.kind ∧
            ∀ c ∈ q.calls, ∀ r ∈ c.inside, ∃ before behind,
              q.course = before ++ r.course ++ behind ++ [.sent q.event]) ∧
        b'.called = b.called ++ p.course.filterMap DeliveryStep.called? ∧
        b'.channel.order = b.channel.order ++ p.course.filterMap DeliveryStep.sent? := by
  rw [publish?_eq_some_iff]
  constructor
  · rintro ⟨p, rfl, rfl, ran, nests, faithful⟩
    have seen := ran.shows nests
    refine ⟨p, rfl, rfl, ran, nests, fun q hq => ⟨faithful q hq, ?_⟩, seen.called, seen.sent⟩
    exact fun c hc r hr => Publishing.course_of_inside hc hr
  · rintro ⟨p, begun, same, ran, nests, all, -, -⟩
    exact ⟨p, begun, same, ran, nests, fun q hq => (all q hq).1⟩

end EventBus

end CodeInsight
