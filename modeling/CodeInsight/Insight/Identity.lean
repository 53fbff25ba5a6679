import CodeInsight.Json.Text
import CodeInsight.Number.Power

/-!
# Identities

* the identity of an insight is 122 bits, written as 32 hexadecimal digits in five groups, two of
  the digits saying that the bits mean nothing (`identityText`);
* `isIdentity` tells such a text from others.
-/

namespace CodeInsight.Identity

open CodeInsight.Json (hexDigit)

/-- The last `width` hexadecimal digits of a number. -/
def hexDigits : Nat → Nat → List Char
  | 0, _ => []
  | width + 1, n => hexDigits width (n / 16) ++ [hexDigit (n % 16)]

/-- The text of the identity with the number `n`: 48 bits, 12 bits behind the digit 4, and 62 bits
    behind the mark of two bits. -/
def text (n : Nat) : String :=
  let high := n / powerOfTwo 74
  let low := n % powerOfTwo 62
  String.ofList
    (hexDigits 8 (high / powerOfTwo 16) ++ '-' :: (hexDigits 4 high ++ '-' :: '4' ::
      (hexDigits 3 (n / powerOfTwo 62) ++ '-' ::
        (hexDigits 4 (powerOfTwo 15 + low / powerOfTwo 48) ++ '-' :: hexDigits 12 low))))

/-- Whether a character is a hexadecimal digit in lower case. -/
def isHex (c : Char) : Bool := ('0' ≤ c && c ≤ '9') || ('a' ≤ c && c ≤ 'f')

/-- What may stand at each place of an identity. -/
def shape : List (Char → Bool) :=
  let hex (n : Nat) := List.replicate n isHex
  let dash : List (Char → Bool) := [(· == '-')]
  hex 8 ++ dash ++ hex 4 ++ dash ++ [(· == '4')] ++ hex 3 ++ dash ++
    [fun c => c == '8' || c == '9' || c == 'a' || c == 'b'] ++ hex 3 ++ dash ++ hex 12

/-- Whether a text is that of an identity. -/
def isIdentity (s : String) : Bool :=
  s.toList.length == shape.length && (shape.zip s.toList).all fun p => p.1 p.2

/-- Whether no text stands twice. -/
def distinct : List String → Bool
  | [] => true
  | s :: rest => !rest.contains s && distinct rest

end CodeInsight.Identity
