import CodeInsight.Json.Text

/-!
# Reading JSON

* the grammar is that of the standard: no comments, no commas at the end, no blanks but the four
  JSON knows, no control characters between quotes, no leading zeros;
* a string is read as it is written, its escapes only checked for their form (`readRaw`);
* values nest as deep as they like: the reader is given a bound of calls that the length of the
  text fixes (`parse?`).
-/

namespace CodeInsight.Json

/-! ## 1. Blanks, strings and numbers -/

/-- The blanks that may stand between the parts of a value. -/
def isSpace (c : Char) : Bool := c == ' ' || c == '\n' || c == '\r' || c == '\t'

/-- The text behind the blanks. -/
def skipSpace (s : List Char) : List Char := s.dropWhile isSpace

/-- What stands up to the closing quote, and what follows the quote. -/
def readRaw : List Char → Option (List Char × List Char)
  | [] => none
  | '"' :: rest => some ([], rest)
  | '\\' :: 'u' :: a :: b :: c :: d :: rest =>
    match hex4? a b c d with
    | none => none
    | some _ => (readRaw rest).map fun r => ('\\' :: 'u' :: a :: b :: c :: d :: r.1, r.2)
  | '\\' :: e :: rest =>
    match shortEscape? e with
    | none => none
    | some _ => (readRaw rest).map fun r => ('\\' :: e :: r.1, r.2)
  | ['\\'] => none
  | c :: rest => if c.toNat < 32 then none else (readRaw rest).map fun r => (c :: r.1, r.2)

/-- The digits in front of a text, and what follows them; at least one. -/
def readDigits (s : List Char) : Option (List Char × List Char) :=
  let digits := s.takeWhile Char.isDigit
  if digits.isEmpty then none else some (digits, s.dropWhile Char.isDigit)

/-- The whole part of a number: a zero, or digits that begin with another. -/
def readWhole : List Char → Option (List Char × List Char)
  | '0' :: rest => some (['0'], rest)
  | s => readDigits s

/-- The fraction of a number, if a point follows. -/
def readFraction : List Char → Option (List Char × List Char)
  | '.' :: rest => (readDigits rest).map fun r => ('.' :: r.1, r.2)
  | s => some ([], s)

/-- The digits of an exponent, with its sign. -/
def readSignedDigits : List Char → Option (List Char × List Char)
  | '+' :: rest => (readDigits rest).map fun r => ('+' :: r.1, r.2)
  | '-' :: rest => (readDigits rest).map fun r => ('-' :: r.1, r.2)
  | s => readDigits s

/-- The exponent of a number, if one follows. -/
def readExponent : List Char → Option (List Char × List Char)
  | 'e' :: rest => (readSignedDigits rest).map fun r => ('e' :: r.1, r.2)
  | 'E' :: rest => (readSignedDigits rest).map fun r => ('E' :: r.1, r.2)
  | s => some ([], s)

/-- A number without its sign. -/
def readMagnitude (s : List Char) : Option (List Char × List Char) :=
  match readWhole s with
  | none => none
  | some (whole, s) =>
    match readFraction s with
    | none => none
    | some (fraction, s) => (readExponent s).map fun r => (whole ++ fraction ++ r.1, r.2)

/-- The literal of a number in front of a text, and what follows it. -/
def readNumber : List Char → Option (List Char × List Char)
  | '-' :: rest => (readMagnitude rest).map fun r => ('-' :: r.1, r.2)
  | s => readMagnitude s

/-! ## 2. Values -/

mutual

/-- A value in front of a text, and what follows it, within `n` nested calls. -/
def readValue : Nat → List Char → Option (Json × List Char)
  | 0, _ => none
  | n + 1, s =>
    match skipSpace s with
    | 'n' :: 'u' :: 'l' :: 'l' :: rest => some (null, rest)
    | 't' :: 'r' :: 'u' :: 'e' :: rest => some (bool true, rest)
    | 'f' :: 'a' :: 'l' :: 's' :: 'e' :: rest => some (bool false, rest)
    | '"' :: rest => (readRaw rest).map fun r => (string r.1, r.2)
    | '[' :: rest =>
      match skipSpace rest with
      | ']' :: rest' => some (array [], rest')
      | _ => (readItems n rest).map fun r => (array r.1, r.2)
    | '{' :: rest =>
      match skipSpace rest with
      | '}' :: rest' => some (object [], rest')
      | _ => (readMembers n rest).map fun r => (object r.1, r.2)
    | s' => (readNumber s').map fun r => (number r.1, r.2)

/-- The items of an array up to its bracket. -/
def readItems : Nat → List Char → Option (List Json × List Char)
  | 0, _ => none
  | n + 1, s =>
    match readValue n s with
    | none => none
    | some (x, rest) =>
      match skipSpace rest with
      | ']' :: rest' => some ([x], rest')
      | ',' :: rest' => (readItems n rest').map fun r => (x :: r.1, r.2)
      | _ => none

/-- The members of an object up to its brace. -/
def readMembers : Nat → List Char → Option (List (List Char × Json) × List Char)
  | 0, _ => none
  | n + 1, s =>
    match skipSpace s with
    | '"' :: afterQuote =>
      match readRaw afterQuote with
      | none => none
      | some (name, afterName) =>
        match skipSpace afterName with
        | ':' :: afterColon =>
          match readValue n afterColon with
          | none => none
          | some (x, rest) =>
            match skipSpace rest with
            | '}' :: rest' => some ([(name, x)], rest')
            | ',' :: rest' => (readMembers n rest').map fun r => ((name, x) :: r.1, r.2)
            | _ => none
        | _ => none
    | _ => none

end

/-- The value a text writes, if it writes one and nothing but blanks follows. -/
def parse? (s : List Char) : Option Json :=
  match readValue (s.length + 1) s with
  | none => none
  | some (j, rest) => if (skipSpace rest).isEmpty then some j else none

/-- As `parse?`, of a string. -/
def ofString? (s : String) : Option Json := parse? s.toList

end CodeInsight.Json
