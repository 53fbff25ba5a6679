/-!
# Spans of time

* a span is a number of milliseconds; `spanText` shows it in seconds with as few decimals as it
  needs, below a second in milliseconds, and nothing as no nanoseconds at all.
-/

namespace CodeInsight.Time

/-- The digits of the thousandths behind a point, without zeros at the end. -/
def thousandths (n : Nat) : List Char :=
  let ds := [n / 100 % 10, n / 10 % 10, n % 10].map fun d => Char.ofNat (48 + d)
  (ds.reverse.dropWhile (· == '0')).reverse

/-- The text of a span of milliseconds. -/
def spanText (ms : Nat) : String :=
  if ms = 0 then "0ns"
  else if ms < 1000 then s!"{ms}ms"
  else
    let fraction := thousandths (ms % 1000)
    if fraction.isEmpty then s!"{ms / 1000}s"
    else s!"{ms / 1000}.{String.ofList fraction}s"

end CodeInsight.Time
