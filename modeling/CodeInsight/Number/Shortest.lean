import CodeInsight.Number.Literal

/-!
# How numbers of 32 bits are written

* among all decimals that read back as the number, the ones with the fewest digits are chosen, and
  among these the one next to the number (`shortest`);
* between a millionth and ten million million a number is written with a point, beyond that with
  an exponent; numbers beyond all others are written as null.
-/

namespace CodeInsight

/-- A decimal: a whole number times a power of ten. -/
structure Decimal where
  digits : Nat
  exponent : Int
  deriving DecidableEq, Repr

namespace Decimal

/-! ## 1. The decimals that read back as a number -/

/-- The numbers between which every number is rounded to a given one, all four over the same
    denominator: low, the number itself, high, denominator; and whether the ends belong to it. -/
structure Neighbourhood where
  low : Nat
  value : Nat
  high : Nat
  den : Nat
  closed : Bool
  deriving DecidableEq, Repr

/-- The neighbourhood of `mantissa * 2 ^ exponent`. Below a power of two the next number is
    only half as far as above, unless the power is the least. -/
def neighbourhood (f : Format) (mantissa : Nat) (exponent : Int) : Neighbourhood :=
  let (unit, den) := scaled 1 4 exponent
  let below := if mantissa = powerOfTwo (f.digits - 1) ∧ f.least < exponent then 1 else 2
  ⟨(4 * mantissa - below) * unit, 4 * mantissa * unit, (4 * mantissa + 2) * unit, den,
    mantissa % 2 == 0⟩

/-- Whether `d * 10 ^ e` lies in a neighbourhood. -/
def Neighbourhood.holds (b : Neighbourhood) (d : Nat) (e : Int) : Bool :=
  let (x, unit) : Nat × Nat :=
    if 0 ≤ e then (d * powerOfTen e.toNat * b.den, 1) else (d * b.den, powerOfTen (-e).toNat)
  if b.closed then b.low * unit ≤ x && x ≤ b.high * unit
  else b.low * unit < x && x < b.high * unit

/-- How far `d * 10 ^ e` is from the number, in parts that depend on `e` only. -/
def Neighbourhood.distance (b : Neighbourhood) (d : Nat) (e : Int) : Nat :=
  let (x, unit) : Nat × Nat :=
    if 0 ≤ e then (d * powerOfTen e.toNat * b.den, 1) else (d * b.den, powerOfTen (-e).toNat)
  if x ≤ b.value * unit then b.value * unit - x else x - b.value * unit

/-- The decimal of exponent `e` next to the number, if one lies in its neighbourhood. -/
def candidate? (b : Neighbourhood) (e : Int) : Option Decimal :=
  let below : Nat :=
    if 0 ≤ e then b.value / (b.den * powerOfTen e.toNat)
    else b.value * powerOfTen (-e).toNat / b.den
  let inside := [below, below + 1].filter (b.holds · e)
  match inside with
  | [] => none
  | [d] => some ⟨d, e⟩
  | d :: d' :: _ =>
    let near := b.distance d e
    let far := b.distance d' e
    some ⟨if far < near ∨ (far = near ∧ d % 2 = 1) then d' else d, e⟩

/-- The greatest exponent tried, and how many are tried below it: together they cover every
    number of 32 bits. -/
def exponentTop : Int := 40

/-- The decimal with the fewest digits that reads back as `mantissa * 2 ^ exponent`. -/
def shortest (f : Format) (mantissa : Nat) (exponent : Int) : Decimal :=
  let b := neighbourhood f mantissa exponent
  ((List.range 100).findSome? fun (i : Nat) => candidate? b (exponentTop - i)).getD ⟨0, 0⟩

/-! ## 2. Writing -/

/-- The digits of a decimal with its point or exponent. -/
def text (d : Decimal) : List Char :=
  let ds := Nat.toDigits 10 d.digits
  let point := (ds.length : Int) + d.exponent
  if 0 ≤ d.exponent ∧ point ≤ 13 then
    ds ++ List.replicate d.exponent.toNat '0' ++ ['.', '0']
  else if 0 < point ∧ point ≤ 13 then
    ds.take point.toNat ++ '.' :: ds.drop point.toNat
  else if -6 < point ∧ point ≤ 0 then
    '0' :: '.' :: (List.replicate (-point).toNat '0' ++ ds)
  else
    let e := point - 1
    let mark := if e < 0 then ['e', '-'] else ['e', '+']
    let head := match ds with
      | [] => []
      | [c] => [c]
      | c :: rest => c :: '.' :: rest
    head ++ mark ++ Nat.toDigits 10 e.natAbs

end Decimal

/-- The literal of a number of 32 bits, if it is not beyond all others. -/
def Signed.literal? (x : Signed) : Option (List Char) :=
  match x.magnitude with
  | .infinite => none
  | .finite m e =>
    let body := if m = 0 then ['0', '.', '0'] else (Decimal.shortest Format.single m e).text
    some (if x.negative then '-' :: body else body)

end CodeInsight
