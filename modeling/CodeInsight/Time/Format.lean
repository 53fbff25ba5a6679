import CodeInsight.Time.Instant

/-!
# How instants are written

* as date and time with a `T` between and a `Z` behind; a year beyond four digits has a sign;
* of the nanoseconds as many groups of three digits are written as are needed, none if they are
  zero;
* a leap second is written as the second after: second 60 at the end of a minute.
-/

namespace CodeInsight

namespace Instant

/-! ## 1. Numbers of a fixed width -/

/-- A number in at least `width` digits. -/
def padded (width n : Nat) : List Char :=
  let ds := Nat.toDigits 10 n
  List.replicate (width - ds.length) '0' ++ ds

/-- A year: four digits, or a sign and at least four. -/
def yearText (year : Int) : List Char :=
  if 0 ≤ year ∧ year ≤ 9999 then padded 4 year.toNat
  else (if year < 0 then '-' else '+') :: padded 4 year.natAbs

/-- The digits behind the second, with their point. -/
def fractionText (nano : Nat) : List Char :=
  if nano = 0 then []
  else if nano % 1000000 = 0 then '.' :: padded 3 (nano / 1000000)
  else if nano % 1000 = 0 then '.' :: padded 6 (nano / 1000)
  else '.' :: padded 9 nano

/-! ## 2. Instants -/

/-- The seconds of a day. -/
def secondsPerDay : Int := 86400

/-- The day of an instant, numbered from the beginning of the year 0. -/
def dayNumber (t : Instant) : Int := t.second / secondsPerDay + Calendar.daysBefore 1970

/-- The seconds since the beginning of the day. -/
def secondOfDay (t : Instant) : Nat := (t.second % secondsPerDay).toNat

/-- The text of an instant. -/
def text (t : Instant) : List Char :=
  let date := Calendar.dateOfDay t.dayNumber
  let s := t.secondOfDay
  let leap := if nanosPerSecond ≤ t.nano then 1 else 0
  yearText date.year ++ '-' :: (padded 2 date.month ++ '-' :: (padded 2 date.day ++
    'T' :: (padded 2 (s / 3600) ++ ':' :: (padded 2 (s / 60 % 60) ++
      ':' :: (padded 2 (s % 60 + leap) ++ (fractionText (t.nano - leap * nanosPerSecond) ++
        ['Z']))))))

instance : Repr Instant := ⟨fun t _ => String.ofList t.text⟩

end Instant

end CodeInsight
