import CodeInsight.Number.Power
import CodeInsight.Text.Blank
import CodeInsight.Time.Format

/-!
# Reading instants

* `Instant.read?` reads more than what is written: single digits, blanks around the numbers, a blank
  or a small `t` between date and time, offsets from universal time in several forms, more digits
  behind the point than count;
* the date must be in the calendar, and it must be within the bounds both where it was written and
  in universal time.
-/

namespace CodeInsight

namespace Instant

open CodeInsight.Text

/-! ## 1. Numbers and marks -/

/-- The value of digits, and what follows them: at least one of them, at most `width`. -/
def readNumber? (width : Nat) (s : List Char) : Option (Nat × List Char) :=
  let digits := (s.take width).takeWhile Char.isDigit
  if digits.isEmpty then none
  else some (digits.foldl (fun n c => 10 * n + (c.toNat - 48)) 0, s.drop digits.length)

/-- A number of one or two digits, blanks in front of it passed over. -/
def readPair? (s : List Char) : Option (Nat × List Char) := readNumber? 2 (trimStart s)

/-- What follows a mark, blanks in front of it passed over. -/
def passMark? (mark : Char) (s : List Char) : Option (List Char) :=
  match trimStart s with
  | [] => none
  | c :: rest => if c = mark then some rest else none

/-- A year: with a sign as many digits as there are, without one at most four. -/
def readYear? (s : List Char) : Option (Int × List Char) :=
  match trimStart s with
  | '-' :: rest => (readNumber? rest.length rest).map fun r => (-(r.1 : Int), r.2)
  | '+' :: rest => (readNumber? rest.length rest).map fun r => ((r.1 : Int), r.2)
  | rest => (readNumber? 4 rest).map fun r => ((r.1 : Int), r.2)

/-- A date. -/
def readDate? (s : List Char) : Option (Date × List Char) := do
  let (year, s) ← readYear? s
  let s ← passMark? '-' s
  let (month, s) ← readPair? s
  let s ← passMark? '-' s
  let (day, s) ← readPair? s
  pure (⟨year, month, day⟩, s)

/-- The nanoseconds behind a second, none if there is no point: nine digits count. -/
def readFraction? (s : List Char) : Option (Nat × List Char) :=
  match s with
  | '.' :: rest =>
    let digits := (rest.takeWhile Char.isDigit).take 9
    if digits.isEmpty then none
    else
      let value := digits.foldl (fun n c => 10 * n + (c.toNat - 48)) 0
      some (value * powerOfTen (9 - digits.length), rest.dropWhile Char.isDigit)
  | _ => some (0, s)

/-- A time of day: the seconds since midnight, and the nanoseconds. Second 60 is the one before
    with a second of nanoseconds more. -/
def readTime? (s : List Char) : Option (Nat × Nat × List Char) := do
  let (hour, s) ← readPair? s
  let s ← passMark? ':' s
  let (minute, s) ← readPair? s
  let s ← passMark? ':' s
  let (second, s) ← readPair? s
  let (nano, s) ← readFraction? s
  if 23 < hour ∨ 59 < minute ∨ 60 < second then none
  else if second = 60 then
    pure (hour * 3600 + minute * 60 + 59, nano + nanosPerSecond, s)
  else pure (hour * 3600 + minute * 60 + second, nano, s)

/-! ## 2. Offsets -/

/-- Two digits. -/
def twoDigits? (s : List Char) : Option (Nat × List Char) :=
  match s with
  | a :: b :: rest =>
    if a.isDigit && b.isDigit then some ((a.toNat - 48) * 10 + (b.toNat - 48), rest) else none
  | _ => none

/-- The hours and minutes of an offset, colons and blanks between them passed over. -/
def readOffsetSize? (s : List Char) : Option (Nat × List Char) :=
  match twoDigits? s with
  | none => none
  | some (hours, s) =>
    match twoDigits? (s.dropWhile fun c => c == ':' || isBlank c) with
    | none => none
    | some (minutes, s) => if 59 < minutes then none else some (hours * 3600 + minutes * 60, s)

/-- Whether a text begins with the name of universal time, in either case. -/
def namesUniversal (s : List Char) : Bool :=
  (s.take 3).map Char.toLower == ['u', 't', 'c']

/-- The seconds by which a time is ahead of universal time. -/
def readOffset? (s : List Char) : Option (Int × List Char) :=
  if namesUniversal s then some (0, s.drop 3)
  else match s with
    | 'Z' :: rest | 'z' :: rest => some (0, rest)
    | '+' :: rest => (readOffsetSize? rest).map fun r => ((r.1 : Int), r.2)
    | '-' :: rest | '\u2212' :: rest => (readOffsetSize? rest).map fun r => (-(r.1 : Int), r.2)
    | _ => none

/-! ## 3. Instants -/

/-- What follows the mark between date and time. -/
def passDateEnd? (s : List Char) : Option (List Char) :=
  match s with
  | 'T' :: rest | 't' :: rest | ' ' :: rest => some rest
  | _ => none

/-- Whether a second lies within the bounds. -/
def inBounds (second : Int) : Bool := first ≤ second && second ≤ last

/-- The instant of a date and a time of day that is `offset` seconds ahead of universal time. -/
def ofLocal? (date : Date) (second nano : Nat) (offset : Int) : Option Instant :=
  if date.exists? && decide (offset.natAbs < 86400) then
    let here := (date.dayNumber - Calendar.daysBefore 1970) * secondsPerDay + second
    if inBounds here then of? (here - offset) nano else none
  else none

/-- The instant a text stands for. -/
def read? (s : List Char) : Option Instant := do
  let (date, s) ← readDate? s
  let s ← passDateEnd? s
  let (second, nano, s) ← readTime? s
  let (offset, s) ← readOffset? (trimStart s)
  if allBlank s then ofLocal? date second nano offset else none

end Instant

end CodeInsight
