import CodeInsight.Proofs.Number.Digits
import CodeInsight.Proofs.Queue.History
import CodeInsight.Proofs.Time.Order

/-!
# The identities of tasks

* the times of the tasks asked for increase strictly, whatever the clock reads
  (`TaskQueue.asked_later`);
* an identity says the path and the microsecond and no more (`Task.identity_inj`), and times that
  increase may lie in one microsecond, so two tasks can share an identity
  (`TaskQueue.identity_shared`);
* **identities tell apart what paths and microseconds tell apart**, and on a clock that moves on by
  a microsecond at least, if it moves on at all, no two tasks have one identity
  (`TaskQueue.identities`).
-/

namespace CodeInsight

/-! ## 1. Times in microseconds -/

namespace Instant

/-- The nanoseconds since the beginning of 1970. Those of a leap second are counted a second time in
    the second after it. -/
def nanos (t : Instant) : Int := t.second * nanosPerSecond + t.nano

/-- Whether an instant is in no leap second. -/
def isRegular (t : Instant) : Bool := decide (t.nano < nanosPerSecond)

theorem micros_eq (t : Instant) : t.micros = t.nanos / 1000 := by
  unfold micros nanos nanosPerSecond
  omega

/-- Outside of leap seconds one microsecond on is a thousand nanoseconds more. -/
theorem nanos_nextMicro? {t t' : Instant} (h : t.nextMicro? = some t') (regular : t.isRegular) :
    t'.nanos = t.nanos + 1000 ∧ t'.isRegular := by
  have inSecond : t.nano < nanosPerSecond := by simpa [isRegular] using regular
  unfold nextMicro? at? at h
  split at h
  case isFalse => cases h
  case isTrue =>
    cases h
    unfold microLater
    by_cases within : t.nano + 1000 < nanosPerSecond
    · simp only [inSecond, within, if_true, nanos, isRegular, decide_true]
      exact ⟨by omega, trivial⟩
    · simp only [inSecond, within, if_true, if_false, nanos, isRegular, decide_eq_true_eq]
      unfold nanosPerSecond at *
      omega

end Instant

/-! ## 2. What an identity says -/

/-- A text is parted at the last place of a sign in one way only. -/
theorem append_sep_inj {α : Type} {sep : α} {xs xs' ys ys' : List α} (hy : sep ∉ ys)
    (hy' : sep ∉ ys') : xs ++ sep :: ys = xs' ++ sep :: ys' ↔ xs = xs' ∧ ys = ys' := by
  refine ⟨fun h => ?_, by rintro ⟨rfl, rfl⟩; rfl⟩
  rcases List.append_eq_append_iff.mp h with ⟨as, rfl, rest⟩ | ⟨as, rfl, rest⟩
  all_goals
    cases as with
    | nil =>
      obtain ⟨-, same⟩ := List.cons_eq_cons.mp rest
      simp [same]
    | cons a as =>
      obtain ⟨-, inside⟩ := List.cons_eq_cons.mp rest
      simp_all

namespace Task

/-- The identity of a task whose time is not before 1970. -/
theorem toList_identity {path : String} {time : Instant} (h : 0 ≤ time.second) :
    (identity path time).toList = path.toList ++ '-' :: Nat.toDigits 10 time.micros.toNat := by
  have positive : time.micros = (time.micros.toNat : Int) := by
    unfold Instant.micros
    omega
  have joined : identity path time = path ++ "-" ++ Nat.repr time.micros.toNat := by
    unfold identity
    rw [positive]
    rfl
  rw [joined]
  simp [Nat.toList_repr]

/-- **An identity says the path and the microsecond**, and no more. -/
theorem identity_inj {path path' : String} {time time' : Instant} (h : 0 ≤ time.second)
    (h' : 0 ≤ time'.second) :
    identity path time = identity path' time' ↔ path = path' ∧ time.micros = time'.micros := by
  have noDash (n : Nat) : '-' ∉ Nat.toDigits 10 n := by
    intro there
    have := Nat.isDigit_of_mem_toDigits (by decide) (by decide) there
    cases this
  have sign : 0 ≤ time.micros ∧ 0 ≤ time'.micros := by
    unfold Instant.micros
    omega
  have sameMicros : time.micros.toNat = time'.micros.toNat ↔ time.micros = time'.micros := by
    omega
  rw [← String.toList_inj, toList_identity h, toList_identity h',
    append_sep_inj (noDash _) (noDash _), String.toList_inj, toDigits_inj, sameMicros]

end Task

/-! ## 3. The times of requests -/

/-- The tasks asked for, the latest first. -/
def asked (entries : List QueueEntry) : List Task := entries.filterMap QueueEntry.asked?

/-- What the clock reads at the requests. -/
def readings (calls : List QueueCall) : List Instant :=
  calls.filterMap fun
    | .enqueue clock _ _ _ => some clock
    | _ => none

namespace TaskQueue

theorem asked_cons (c : QueueCall) (earlier : List QueueCall) :
    asked (history (c :: earlier)) =
      ((after earlier).perform c).1.asked?.toList ++ asked (history earlier) := by
  rw [history, asked, List.filterMap_cons]
  cases ((after earlier).perform c).1.asked? <;> rfl

/-- The time of a request is what the clock reads, if that is later than the latest request, and
    else one microsecond after that. -/
theorem nextTime?_cases {q : TaskQueue} {clock time : Instant} (h : q.nextTime? clock = some time) :
    time = clock ∧ (∀ last ∈ q.lastTime, clock.notAfter last = false) ∨
      ∃ last, q.lastTime = some last ∧ clock.notAfter last = true ∧
        last.nextMicro? = some time := by
  unfold nextTime? at h
  cases hl : q.lastTime with
  | none =>
    rw [hl] at h
    cases h
    exact .inl ⟨rfl, fun _ h => nomatch h⟩
  | some last =>
    rw [hl] at h
    dsimp only at h
    split at h
    case isTrue stalled => exact .inr ⟨last, rfl, stalled, h⟩
    case isFalse later =>
      cases h
      refine .inl ⟨rfl, fun last' same => ?_⟩
      cases same
      exact Bool.eq_false_iff.mpr later

/-- The next request is later than the one before. -/
theorem nextTime?_later {q : TaskQueue} {clock time last : Instant} (hl : q.lastTime = some last)
    (h : q.nextTime? clock = some time) : time.notAfter last = false := by
  rcases nextTime?_cases h with ⟨rfl, later⟩ | ⟨last', hl', -, micro⟩
  · exact later last hl
  · obtain rfl : last = last' := by simpa [hl] using hl'
    exact Instant.notAfter_nextMicro? micro

/-- Where nothing is asked for, the time of the latest request stays. -/
theorem lastTime_of_not_asked {q : TaskQueue} {c : QueueCall}
    (h : (q.perform c).1.asked? = none) : (q.perform c).2.lastTime = q.lastTime := by
  cases c with
  | enqueue clock path priority kind =>
    cases ht : q.nextTime? clock with
    | none =>
      rw [perform_enqueue_none ht]
      rfl
    | some time =>
      rw [perform_enqueue ht] at h
      cases h
  | dequeue | remove | clear => rfl

/-- The queue keeps the time of the task asked for last. -/
theorem lastTime_after (calls : List QueueCall) :
    (after calls).lastTime = (asked (history calls)).head?.map Task.enqueuedAt := by
  induction calls with
  | nil => rfl
  | cons c earlier ih =>
    rw [asked_cons, after]
    cases hc : ((after earlier).perform c).1.asked? with
    | none => exact (lastTime_of_not_asked hc).trans ih
    | some t =>
      obtain ⟨clock, time, -, -, made, -, kept⟩ := asked_cases hc
      rw [kept, made]
      rfl

theorem lastTime_of_head {calls : List QueueCall} {t : Task}
    (h : t ∈ (asked (history calls)).head?) : (after calls).lastTime = some t.enqueuedAt := by
  rw [lastTime_after, h]
  rfl

theorem asked_of_lastTime {calls : List QueueCall} {last : Instant}
    (h : (after calls).lastTime = some last) :
    ∃ t ∈ (asked (history calls)).head?, t.enqueuedAt = last := by
  rw [lastTime_after] at h
  exact Option.map_eq_some_iff.mp h

/-- A transitive order of a list needs to be shown for the new first one and the one behind it. -/
theorem pairwise_cons_of_head {α : Type} {R : α → α → Prop} {x : α} {xs : List α}
    (trans : ∀ a b c, R a b → R b c → R a c) (first : ∀ y ∈ xs.head?, R x y)
    (rest : xs.Pairwise R) : (x :: xs).Pairwise R := by
  refine List.pairwise_cons.mpr ⟨fun z hz => ?_, rest⟩
  cases xs with
  | nil => cases hz
  | cons y ys =>
    have next : R x y := first y rfl
    rcases List.mem_cons.mp hz with rfl | behind
    · exact next
    · exact trans x y z next ((List.pairwise_cons.mp rest).1 z behind)

/-- **The times of tasks increase strictly**, whatever the clock reads. -/
theorem asked_later (calls : List QueueCall) :
    (asked (history calls)).Pairwise fun s t => s.enqueuedAt.notAfter t.enqueuedAt = false := by
  induction calls with
  | nil => exact List.Pairwise.nil
  | cons c earlier ih =>
    rw [asked_cons]
    cases hc : ((after earlier).perform c).1.asked? with
    | none => exact ih
    | some t =>
      obtain ⟨clock, time, -, next, made, -, -⟩ := asked_cases hc
      refine pairwise_cons_of_head (fun a b c hab hbc => ?_) (fun s hs => ?_) ih
      · refine Bool.eq_false_iff.mpr fun hac => ?_
        have := Instant.notAfter_trans hac (Instant.notAfter_total hbc)
        exact Bool.eq_false_iff.mp hab this
      · have later := nextTime?_later (lastTime_of_head hs) next
        rw [made]
        exact later

/-! ## 4. Tasks told apart -/

theorem id_of_asked {calls : List QueueCall} :
    ∀ t ∈ asked (history calls), t.id = Task.identity t.path t.enqueuedAt := by
  induction calls with
  | nil => exact fun _ h => nomatch h
  | cons c earlier ih =>
    rw [asked_cons]
    cases hc : ((after earlier).perform c).1.asked? with
    | none => exact ih
    | some t =>
      obtain ⟨clock, time, -, -, made, -, -⟩ := asked_cases hc
      refine List.forall_mem_cons.mpr ⟨?_, ih⟩
      rw [made]
      rfl

/-- No request has a time before 1970 if the clock never reads one. -/
theorem modern_of_asked {calls : List QueueCall}
    (modern : ∀ clock ∈ readings calls, 0 ≤ clock.second) :
    ∀ t ∈ asked (history calls), 0 ≤ t.enqueuedAt.second := by
  induction calls with
  | nil => exact fun _ h => nomatch h
  | cons c earlier ih =>
    have before := ih fun clock hc => modern clock (by
      cases c <;> first | exact List.mem_cons_of_mem _ hc | exact hc)
    rw [asked_cons]
    cases hc : ((after earlier).perform c).1.asked? with
    | none => exact before
    | some t =>
      obtain ⟨clock, time, rfl, next, made, -, -⟩ := asked_cases hc
      refine List.forall_mem_cons.mpr ⟨?_, before⟩
      rw [made]
      show 0 ≤ time.second
      rcases nextTime?_cases next with ⟨rfl, -⟩ | ⟨last, hl, -, micro⟩
      · exact modern time List.mem_cons_self
      · obtain ⟨s, hs, rfl⟩ := asked_of_lastTime hl
        have old := before s (List.mem_of_mem_head? hs)
        have later := Instant.notAfter_iff.mp
          (Instant.notAfter_total (Instant.notAfter_nextMicro? micro))
        omega

/-- **A clock that moves on by a microsecond at least**, if it moves on at all: no reading is in a
    leap second, and each that is later than the latest request is so by a microsecond. -/
def Spaced : List QueueCall → Prop
  | [] => True
  | .enqueue clock _ _ _ :: earlier =>
    (clock.isRegular ∧ ∀ last ∈ (after earlier).lastTime,
      clock.notAfter last ∨ last.nanos + 1000 ≤ clock.nanos) ∧ Spaced earlier
  | _ :: earlier => Spaced earlier

theorem Spaced.before {c : QueueCall} {earlier : List QueueCall} (h : Spaced (c :: earlier)) :
    Spaced earlier := by
  cases c with
  | enqueue => exact h.2
  | dequeue | remove | clear => exact h

/-- On such a clock all requests are at regular times. -/
theorem Spaced.regular {calls : List QueueCall} (h : Spaced calls) :
    ∀ t ∈ asked (history calls), t.enqueuedAt.isRegular := by
  induction calls with
  | nil => exact fun _ h => nomatch h
  | cons c earlier ih =>
    have before := ih h.before
    rw [asked_cons]
    cases hc : ((after earlier).perform c).1.asked? with
    | none => exact before
    | some t =>
      obtain ⟨clock, time, rfl, next, made, -, -⟩ := asked_cases hc
      refine List.forall_mem_cons.mpr ⟨?_, before⟩
      rw [made]
      show time.isRegular
      rcases nextTime?_cases next with ⟨rfl, -⟩ | ⟨last, hl, -, micro⟩
      · exact h.1.1
      · obtain ⟨s, hs, rfl⟩ := asked_of_lastTime hl
        exact (Instant.nanos_nextMicro? micro (before s (List.mem_of_mem_head? hs))).2

/-- On such a clock requests are a microsecond apart. -/
theorem Spaced.apart {calls : List QueueCall} (h : Spaced calls) :
    (asked (history calls)).Pairwise fun s t => t.enqueuedAt.micros < s.enqueuedAt.micros := by
  induction calls with
  | nil => exact List.Pairwise.nil
  | cons c earlier ih =>
    rw [asked_cons]
    cases hc : ((after earlier).perform c).1.asked? with
    | none => exact ih h.before
    | some t =>
      obtain ⟨clock, time, rfl, next, made, -, -⟩ := asked_cases hc
      refine pairwise_cons_of_head (fun _ _ _ hab hbc => Int.lt_trans hbc hab) (fun s hs => ?_)
        (ih h.before)
      have last := lastTime_of_head hs
      have further : s.enqueuedAt.nanos + 1000 ≤ time.nanos := by
        rcases nextTime?_cases next with ⟨rfl, later⟩ | ⟨last', hl, -, micro⟩
        · rcases h.1.2 s.enqueuedAt last with stalled | apart
          · exact absurd stalled (Bool.eq_false_iff.mp (later _ last))
          · exact apart
        · obtain rfl : s.enqueuedAt = last' := by simpa [last] using hl
          have regular := h.before.regular s (List.mem_of_mem_head? hs)
          exact Int.le_of_eq (Instant.nanos_nextMicro? micro regular).1.symm
      rw [made]
      show s.enqueuedAt.micros < time.micros
      rw [Instant.micros_eq, Instant.micros_eq]
      omega

/-- **What the identities of tasks tell apart**, for a clock that never reads a time before 1970:
    the tasks asked for are at ever later times, two of them have one identity exactly if they are
    for one path and in one microsecond, and none have if the clock moves on by a microsecond at
    least. -/
theorem identities (calls : List QueueCall)
    (modern : ∀ clock ∈ readings calls, 0 ≤ clock.second) :
    ((asked (history calls)).Pairwise fun s t => s.enqueuedAt.notAfter t.enqueuedAt = false) ∧
      (∀ s ∈ asked (history calls), ∀ t ∈ asked (history calls),
        s.id = t.id ↔ s.path = t.path ∧ s.enqueuedAt.micros = t.enqueuedAt.micros) ∧
      (Spaced calls → ((asked (history calls)).map Task.id).Nodup) := by
  have same : ∀ s ∈ asked (history calls), ∀ t ∈ asked (history calls),
      s.id = t.id ↔ s.path = t.path ∧ s.enqueuedAt.micros = t.enqueuedAt.micros := by
    intro s hs t ht
    rw [id_of_asked s hs, id_of_asked t ht]
    exact Task.identity_inj (modern_of_asked modern s hs) (modern_of_asked modern t ht)
  refine ⟨asked_later calls, same, fun spaced => ?_⟩
  refine List.pairwise_map.mpr (spaced.apart.imp_of_mem fun {s t} hs ht apart one => ?_)
  have := ((same s hs t ht).mp one).2
  omega

/-- A clock that stands still is such a clock. -/
theorem identities_stalledClock :
    Spaced [.enqueue .epoch "a" .low .full, .enqueue .epoch "a" .high .full] ∧
      ((asked (history [.enqueue .epoch "a" .low .full, .enqueue .epoch "a" .high .full])).map
        Task.id).Nodup := by
  have spaced : Spaced [.enqueue .epoch "a" .low .full, .enqueue .epoch "a" .high .full] := by
    refine ⟨⟨by decide, fun last hl => .inl ?_⟩, ⟨by decide, fun last hl => nomatch hl⟩, trivial⟩
    cases hl
    decide
  refine ⟨spaced, (identities _ fun clock hc => ?_).2.2 spaced⟩
  have : clock = .epoch := by simpa [readings] using hc
  rw [this]
  decide

/-- **Two tasks can share an identity**: the requests are for one path, the second 999 nanoseconds
    after the first. -/
theorem identity_shared :
    let first : Instant := ⟨1700000000, 42000, by decide, by decide⟩
    let second : Instant := ⟨1700000000, 42999, by decide, by decide⟩
    ∃ s t, asked (history [.enqueue second "src/a.ts" .low .full,
        .enqueue first "src/a.ts" .low .full]) = [s, t] ∧
      s.enqueuedAt = second ∧ t.enqueuedAt = first ∧ s ≠ t ∧
      s.id = "src/a.ts-1700000000000042" ∧ t.id = "src/a.ts-1700000000000042" :=
  ⟨_, _, rfl, rfl, rfl, by decide, rfl, rfl⟩

end TaskQueue
end CodeInsight
