/-!
# The calendar

* a `Date` is a day of the Gregorian calendar, reckoned back and forth without end; years before
  the year 1 are counted 0, -1, …;
* days are numbered from the first of January of the year 0, and `daysBefore` is the number of the
  first day of a year;
* `dateOfDay` and `Date.dayNumber` go from the number to the date and back.
-/

namespace CodeInsight

/-- A day of the calendar. The month counts from 1, the day from 1. -/
structure Date where
  year : Int
  month : Nat
  day : Nat
  deriving DecidableEq, Repr

namespace Calendar

/-- Whether a year has a 29th of February. -/
def isLeap (year : Int) : Bool := year % 4 = 0 && (year % 100 ≠ 0 || year % 400 = 0)

/-- The lengths of the months of a year. -/
def monthLengths (year : Int) : List Nat :=
  [31, if isLeap year then 29 else 28, 31, 30, 31, 30, 31, 31, 30, 31, 30, 31]

/-- The number of days from the beginning of the year 0 to the beginning of a year. -/
def daysBefore (year : Int) : Int :=
  365 * year + (year + 3) / 4 - (year + 99) / 100 + (year + 399) / 400

/-- The year in which a day lies: the one its number suggests at the average length of a year, or
    one beside it. -/
def yearOfDay (n : Int) : Int :=
  let guess := n * 400 / 146097
  if n < daysBefore guess then guess - 1
  else if daysBefore (guess + 1) ≤ n then guess + 1
  else guess

/-- The month and the day of the month, both from 1, of the day `n` (from 0) behind the beginning
    of month `month`, the lengths of this and the following months given. -/
def monthAndDay (month n : Nat) : List Nat → Nat × Nat
  | [] => (month, n + 1)
  | length :: rest =>
    if n < length then (month, n + 1) else monthAndDay (month + 1) (n - length) rest

/-- The date of a day. -/
def dateOfDay (n : Int) : Date :=
  let year := yearOfDay n
  let md := monthAndDay 1 (n - daysBefore year).toNat (monthLengths year)
  ⟨year, md.1, md.2⟩

end Calendar

namespace Date

open Calendar

/-- Whether the calendar has the date. -/
def exists? (d : Date) : Bool :=
  match d.month with
  | 0 => false
  | m + 1 =>
    match (monthLengths d.year)[m]? with
    | some length => 1 ≤ d.day && d.day ≤ length
    | none => false

/-- The number of a date's day. -/
def dayNumber (d : Date) : Int :=
  let monthsBefore := (monthLengths d.year).take (d.month - 1)
  daysBefore d.year + monthsBefore.foldl (fun days length => days + length) (d.day - 1)

end Date

end CodeInsight
