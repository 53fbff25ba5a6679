import CodeInsight.Number.Power

/-!
# Binary floating-point numbers

* a `Magnitude` is a whole number times a power of two, or beyond all numbers;
* a `Format` bounds the whole number and the power, and `Format.nearest` is the magnitude of the
  format next to a fraction, the even one of two equally near.
-/

namespace CodeInsight

/-- A number without its sign: `mantissa * 2 ^ exponent`, or beyond every number of the format. -/
inductive Magnitude where
  | finite (mantissa : Nat) (exponent : Int)
  | infinite
  deriving DecidableEq, Repr

/-- A format: mantissas have at most `digits` binary digits, exponents lie between `least` and
    `greatest`. -/
structure Format where
  digits : Nat
  least : Int
  greatest : Int
  deriving DecidableEq, Repr

namespace Format

/-- The format of 32 bits. -/
def single : Format := ⟨24, -149, 104⟩

/-- The format of 64 bits. -/
def double : Format := ⟨53, -1074, 971⟩

end Format

/-- A fraction scaled by a power of two: numerator and denominator of `num / den * 2 ^ e`. -/
def scaled (num den : Nat) (e : Int) : Nat × Nat :=
  if 0 ≤ e then (num * powerOfTwo e.toNat, den) else (num, den * powerOfTwo (-e).toNat)

/-- The whole number next to a fraction, the even one of two equally near. -/
def roundEven (num den : Nat) : Nat :=
  let q := num / den
  let r := num % den
  if 2 * r < den then q
  else if den < 2 * r then q + 1
  else if q % 2 = 0 then q else q + 1

namespace Format

/-- The exponent at which a fraction that is not zero has a mantissa of all binary digits, or one
    less: the fraction lies between two powers of two that its logarithms tell. -/
def estimate (f : Format) (num den : Nat) : Int :=
  (Nat.log2 num : Int) - Nat.log2 den - f.digits

/-- The magnitude with the mantissa and exponent, brought into the format. -/
def normal (f : Format) (mantissa : Nat) (exponent : Int) : Magnitude :=
  let (m, e) :=
    if mantissa = powerOfTwo f.digits then (powerOfTwo (f.digits - 1), exponent + 1)
    else (mantissa, exponent)
  if f.greatest < e then .infinite else .finite m e

/-- The magnitude of the format next to the fraction `num / den`. -/
def nearest (f : Format) (num den : Nat) : Magnitude :=
  if num = 0 then .finite 0 f.least
  else
    let e₀ := f.estimate num den
    let (n₀, d₀) := scaled num den (-e₀)
    let e := max f.least (if n₀ / d₀ < powerOfTwo f.digits then e₀ else e₀ + 1)
    let (n, d) := scaled num den (-e)
    f.normal (roundEven n d) e

/-- A magnitude of another format brought into this one. -/
def convert (f : Format) : Magnitude → Magnitude
  | .infinite => .infinite
  | .finite m e =>
    let (n, d) := scaled m 1 e
    f.nearest n d

end Format

end CodeInsight
