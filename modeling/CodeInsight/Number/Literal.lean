import CodeInsight.Number.Binary

/-!
# Number literals

* the literal of a number that has a point, an exponent or too many digits stands for a number of
  64 bits (`readDouble?`): its first digits are taken as a whole number of 64 bits, digits that do
  not fit any more are left out, and the whole number is multiplied with or divided by a power of
  ten, each of the two and the result being rounded;
* a literal beyond all numbers of 64 bits stands for nothing.
-/

namespace CodeInsight

/-- A number with its sign. -/
structure Signed where
  negative : Bool
  magnitude : Magnitude
  deriving DecidableEq, Repr

namespace Literal

/-! ## 1. Digits -/

/-- The greatest whole number of 64 bits. -/
def wordMax : Nat := powerOfTwo 64 - 1

/-- The greatest exponent that is read. -/
def exponentMax : Nat := powerOfTwo 31 - 1

/-- The value of a digit. -/
def digit (c : Char) : Nat := c.toNat - 48

/-- Takes digits into a whole number as long as it stays within `limit`: the number, how many were
    taken, and what follows them. -/
def take (limit : Nat) : Nat → Nat → List Char → Nat × Nat × List Char
  | value, count, [] => (value, count, [])
  | value, count, c :: rest =>
    if c.isDigit && decide (value * 10 + digit c ≤ limit) then
      take limit (value * 10 + digit c) (count + 1) rest
    else (value, count, c :: rest)

/-- A literal without its sign: a whole number, the power of ten it is multiplied with, and the
    exponent written, with its sign. -/
structure Parts where
  significand : Nat
  scale : Int
  exponentNegative : Bool
  exponent : List Char
  deriving DecidableEq, Repr

/-- The exponent written at the front of a text: whether it is negative, and its digits. -/
def readExponent : List Char → Bool × List Char
  | 'e' :: '-' :: rest | 'E' :: '-' :: rest => (true, rest)
  | 'e' :: '+' :: rest | 'E' :: '+' :: rest => (false, rest)
  | 'e' :: rest | 'E' :: rest => (false, rest)
  | _ => (false, [])

/-- The parts of a literal without its sign. Digits in front of the point that do not fit count
    in the scale; those behind the point do not matter. -/
def parts (s : List Char) : Parts :=
  let (whole, _, rest) := take wordMax 0 0 s
  let left := rest.takeWhile Char.isDigit
  let rest := rest.dropWhile Char.isDigit
  let (significand, taken, rest) : Nat × Nat × List Char :=
    match rest with
    | '.' :: fraction => take wordMax whole 0 fraction
    | _ => (whole, 0, rest)
  let (negative, exponent) := readExponent (rest.dropWhile Char.isDigit)
  ⟨significand, (left.length : Int) - taken, negative, exponent⟩

/-! ## 2. Values -/

/-- The product of two magnitudes, rounded. -/
def times (a b : Magnitude) : Magnitude :=
  match a, b with
  | .finite m e, .finite m' e' =>
    let (n, d) := scaled (m * m') 1 (e + e')
    Format.double.nearest n d
  | _, _ => .infinite

/-- The quotient of two magnitudes, rounded. -/
def quotient (a b : Magnitude) : Magnitude :=
  match a, b with
  | .finite m e, .finite m' e' =>
    let (n, d) := scaled m m' (e - e')
    Format.double.nearest n d
  | _, _ => .infinite

/-- A power of ten, rounded. -/
def tenTo (n : Nat) : Magnitude := Format.double.nearest (powerOfTen n) 1

/-- The greatest power of ten that is no more than every number. -/
def tenMax : Nat := 308

/-- A whole number times a power of ten. Below the least power the number is divided by the
    greatest one, and nothing is left of it after a second time. -/
def scale? (significand : Nat) (exponent : Int) : Option Magnitude :=
  let m := Format.double.nearest significand 1
  if significand = 0 then some m
  else if (tenMax : Int) < exponent then none
  else if 0 ≤ exponent then
    match times m (tenTo exponent.toNat) with
    | .infinite => none
    | x => some x
  else if -(tenMax : Int) ≤ exponent then some (quotient m (tenTo (-exponent).toNat))
  else if -(2 * tenMax : Int) ≤ exponent then
    some (quotient (quotient m (tenTo tenMax)) (tenTo (-exponent - tenMax).toNat))
  else some (.finite 0 Format.double.least)

/-- The magnitude of the parts of a literal. -/
def magnitude? (p : Parts) : Option Magnitude :=
  let value := (take exponentMax 0 0 p.exponent)
  if value.2.1 < p.exponent.length then
    if p.significand = 0 ∨ p.exponentNegative then some (.finite 0 Format.double.least) else none
  else
    scale? p.significand (if p.exponentNegative then p.scale - value.1 else p.scale + value.1)

/-- The number of 64 bits a literal stands for. -/
def readDouble? (s : List Char) : Option Signed :=
  match s with
  | '-' :: rest => (magnitude? (parts rest)).map (⟨true, ·⟩)
  | _ => (magnitude? (parts s)).map (⟨false, ·⟩)

/-- The whole number of 64 bits that the literal writes, if it is one. -/
def whole? (s : List Char) : Option Nat :=
  let (value, count, rest) := take wordMax 0 0 s
  if rest.isEmpty && count != 0 then some value else none

/-- The number of 32 bits a literal stands for. A whole number of 64 bits is rounded once,
    everything else by way of 64 bits. -/
def readSingle? (s : List Char) : Option Signed :=
  match whole? s with
  | some n => some ⟨false, Format.single.nearest n 1⟩
  | none =>
    match s with
    | '-' :: rest =>
      match whole? rest with
      | some n =>
        if n ≤ powerOfTwo 63 then some ⟨true, Format.single.nearest n 1⟩
        else some ⟨true, Format.single.convert (Format.double.nearest n 1)⟩
      | none => (readDouble? s).map fun x => ⟨x.negative, Format.single.convert x.magnitude⟩
    | _ => (readDouble? s).map fun x => ⟨x.negative, Format.single.convert x.magnitude⟩

end Literal

end CodeInsight
