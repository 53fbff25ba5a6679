import CodeInsight.Time.Calendar

/-!
# Instants

* an `Instant` is a second since the beginning of 1970 in universal time, with its nanoseconds,
  which may go on for another second, a leap second;
* the calendar has leap seconds at the end of a minute only (`Instant.isCivil`), and so have the
  instants that are made of a second and nanoseconds (`Instant.of?`); counting on from an instant
  gives whatever can be held (`Instant.at?`);
* instants are bounded by the years that dates are kept for (`Instant.first`, `Instant.last`);
* they are ordered by their second, then by their nanoseconds.
-/

namespace CodeInsight

namespace Instant

/-- The nanoseconds of a second. -/
def nanosPerSecond : Nat := 1000000000

/-- The first second there is: the beginning of the year -262143. -/
def first : Int := -8334601228800

/-- The last second there is: the end of the year 262142. -/
def last : Int := 8210266876799

end Instant

/-- A point in time. -/
structure Instant where
  second : Int
  nano : Nat
  second_bounds : Instant.first ≤ second ∧ second ≤ Instant.last
  nano_lt : nano < 2 * Instant.nanosPerSecond
  deriving DecidableEq

namespace Instant

@[ext] theorem ext {a b : Instant} (hs : a.second = b.second) (hn : a.nano = b.nano) : a = b := by
  cases a; cases b; simp_all

/-- The instant of a second and its nanoseconds, if they can be held. -/
def at? (second : Int) (nano : Nat) : Option Instant :=
  if h : (first ≤ second ∧ second ≤ last) ∧ nano < 2 * nanosPerSecond then
    some ⟨second, nano, h.1, h.2⟩
  else none

@[simp] theorem at?_self (t : Instant) : at? t.second t.nano = some t := by
  simp [at?, t.second_bounds, t.nano_lt]

/-- Whether an instant is in no leap second, or in one at the end of a minute. -/
def isCivil (t : Instant) : Bool := decide (t.nano < nanosPerSecond) || t.second % 60 == 59

theorem isCivil_iff {t : Instant} :
    t.isCivil = true ↔ t.nano < nanosPerSecond ∨ t.second % 60 = 59 := by
  simp [isCivil]

/-- The instant of a second and its nanoseconds, if the calendar has one. -/
def of? (second : Int) (nano : Nat) : Option Instant := (at? second nano).filter isCivil

theorem of?_self {t : Instant} (h : t.isCivil = true) : of? t.second t.nano = some t := by
  simp [of?, h]

/-- A leap second within a minute is before the last second. -/
theorem second_succ_le {t : Instant} (h : t.isCivil ≠ true) : t.second + 1 ≤ last := by
  have bounds := t.second_bounds
  rw [ne_eq, isCivil_iff] at h
  unfold last at *
  omega

/-- The instant that the calendar has for an instant: a leap second within a minute is the second
    after. -/
def civil (t : Instant) : Instant :=
  if h : t.isCivil = true then t
  else ⟨t.second + 1, t.nano - nanosPerSecond,
    ⟨by have := t.second_bounds; omega, second_succ_le h⟩, by have := t.nano_lt; omega⟩

theorem civil_of_isCivil {t : Instant} (h : t.isCivil = true) : t.civil = t := dif_pos h

theorem isCivil_civil (t : Instant) : t.civil.isCivil = true := by
  unfold civil
  split
  case isTrue h => exact h
  case isFalse =>
    have := t.nano_lt
    exact isCivil_iff.mpr (.inl (by dsimp only; omega))

/-- **The calendar has no instant twice**: it changes just those it does not have. -/
theorem civil_eq_iff {t : Instant} : t.civil = t ↔ t.isCivil = true :=
  ⟨fun h => h ▸ t.isCivil_civil, civil_of_isCivil⟩

/-- The beginning of 1970. -/
def epoch : Instant := ⟨0, 0, by decide, by decide⟩

instance : Inhabited Instant := ⟨epoch⟩

/-- The microseconds since the beginning of 1970, a part of one left out. -/
def micros (t : Instant) : Int := t.second * 1000000 + (t.nano / 1000 : Nat)

/-- Whether an instant is not later than another. -/
def notAfter (a b : Instant) : Bool :=
  decide (a.second < b.second) || (a.second == b.second && decide (a.nano ≤ b.nano))

/-- The second and nanosecond one microsecond on. In a leap second the count of nanoseconds goes on
    until the second is over. -/
def microLater (t : Instant) : Int × Nat :=
  let nano := t.nano + 1000
  if t.nano < nanosPerSecond then
    if nano < nanosPerSecond then (t.second, nano) else (t.second + 1, nano - nanosPerSecond)
  else if nano < 2 * nanosPerSecond then (t.second, nano)
  else (t.second + 1, nano - 2 * nanosPerSecond)

/-- The instant one microsecond on; the last instants have none. -/
def nextMicro? (t : Instant) : Option Instant := at? t.microLater.1 t.microLater.2

end Instant

end CodeInsight
