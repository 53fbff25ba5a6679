import CodeInsight.Config.Toml
import CodeInsight.Json.Text
import CodeInsight.Number.Literal
import CodeInsight.Time.Calendar

/-!
# Reading TOML

* a document is read statement by statement, a line each, comments and blank lines between them
  (`Toml.readDocument?`);
* values may go over several lines only between brackets, braces and triple quotes;
* a number must be written without needless zeros, underscores only between digits, and fit into
  128 bits or, with a point, into 64.

Functions that read take a bound of nested calls where they call themselves; the length of the text
is enough.
-/

namespace CodeInsight.Toml

/-! ## 1. Blanks and line ends -/

/-- The blanks within a line. -/
def isSpace (c : Char) : Bool := c == ' ' || c == '\t'

/-- The text behind the blanks. -/
def skipSpace (s : List Char) : List Char := s.dropWhile isSpace

/-- Whether a character may stand in a comment or between single quotes. -/
def isPlain (c : Char) : Bool := c == '\t' || (32 ≤ c.toNat && c.toNat != 127)

/-- The text behind a line end. -/
def passLineEnd? : List Char → Option (List Char)
  | '\n' :: rest => some rest
  | '\r' :: '\n' :: rest => some rest
  | _ => none

/-- The text behind a comment, if there is one. -/
def skipComment : List Char → List Char
  | '#' :: rest => rest.dropWhile isPlain
  | s => s

/-- The text behind blanks, comments and line ends, as many as there are. -/
def skipLines : Nat → List Char → List Char
  | 0, s => s
  | n + 1, s =>
    let rest := skipComment (skipSpace s)
    match passLineEnd? rest with
    | some rest' => skipLines n rest'
    | none => rest

/-! ## 2. Quoted texts -/

/-- The character that hexadecimal digits name. -/
def ofHex? (digits : List Char) : Option Char :=
  match digits.mapM Json.hexValue? with
  | none => none
  | some ds =>
    let n := ds.foldl (fun n d => n * 16 + d) 0
    if n.isValidChar then some (Char.ofNat n) else none

/-- The character named by exactly `width` hexadecimal digits. -/
def readHex? (width : Nat) (s : List Char) : Option (Char × List Char) :=
  if (s.take width).length = width then (ofHex? (s.take width)).map fun c => (c, s.drop width)
  else none

/-- The character an escape names, read behind its backslash. -/
def readEscape? : List Char → Option (Char × List Char)
  | 'b' :: rest => some ('\x08', rest)
  | 't' :: rest => some ('\t', rest)
  | 'n' :: rest => some ('\n', rest)
  | 'f' :: rest => some ('\x0c', rest)
  | 'r' :: rest => some ('\r', rest)
  | 'e' :: rest => some ('\x1b', rest)
  | '"' :: rest => some ('"', rest)
  | '\\' :: rest => some ('\\', rest)
  | 'x' :: rest => readHex? 2 rest
  | 'u' :: rest => readHex? 4 rest
  | 'U' :: rest => readHex? 8 rest
  | _ => none

/-- The text up to a double quote. -/
def readBasic? : Nat → List Char → Option (List Char × List Char)
  | 0, _ => none
  | n + 1, s =>
    match s with
    | '"' :: rest => some ([], rest)
    | '\\' :: rest =>
      match readEscape? rest with
      | some (c, rest') => (readBasic? n rest').map fun r => (c :: r.1, r.2)
      | none => none
    | c :: rest => if isPlain c then (readBasic? n rest).map fun r => (c :: r.1, r.2) else none
    | [] => none

/-- The text up to a single quote. -/
def readLiteral? (s : List Char) : Option (List Char × List Char) :=
  let body := s.takeWhile fun c => c != '\'' && isPlain c
  match s.drop body.length with
  | '\'' :: rest => some (body, rest)
  | _ => none

/-- What may still belong to a text behind its closing quotes: up to two more of them. -/
def moreQuotes (quote : Char) (s : List Char) : List Char × List Char :=
  let more := (s.take 2).takeWhile (· == quote)
  (more, s.drop more.length)

/-- The text up to three double quotes. A backslash at the end of a line joins what follows. -/
def readLongBasic? : Nat → List Char → Option (List Char × List Char)
  | 0, _ => none
  | n + 1, s =>
    match s with
    | '"' :: '"' :: '"' :: rest => some (moreQuotes '"' rest)
    | '\\' :: rest =>
      match passLineEnd? (skipSpace rest) with
      | some _ =>
        readLongBasic? n (rest.dropWhile fun c => isSpace c || c == '\n' || c == '\r')
      | none =>
        match readEscape? rest with
        | some (c, rest') => (readLongBasic? n rest').map fun r => (c :: r.1, r.2)
        | none => none
    | '\n' :: rest => (readLongBasic? n rest).map fun r => ('\n' :: r.1, r.2)
    | '\r' :: '\n' :: rest => (readLongBasic? n rest).map fun r => ('\n' :: r.1, r.2)
    | c :: rest => if isPlain c then (readLongBasic? n rest).map fun r => (c :: r.1, r.2) else none
    | [] => none

/-- The text up to three single quotes. -/
def readLongLiteral? : Nat → List Char → Option (List Char × List Char)
  | 0, _ => none
  | n + 1, s =>
    match s with
    | '\'' :: '\'' :: '\'' :: rest => some (moreQuotes '\'' rest)
    | '\n' :: rest => (readLongLiteral? n rest).map fun r => ('\n' :: r.1, r.2)
    | '\r' :: '\n' :: rest => (readLongLiteral? n rest).map fun r => ('\n' :: r.1, r.2)
    | c :: rest =>
      if isPlain c then (readLongLiteral? n rest).map fun r => (c :: r.1, r.2) else none
    | [] => none

/-- The text behind the first line end, if the text begins with one. -/
def dropFirstLineEnd (s : List Char) : List Char := (passLineEnd? s).getD s

/-- A text in any of the four kinds of quotes. -/
def readText? (s : List Char) : Option (String × List Char) :=
  let read : Option (List Char × List Char) :=
    match s with
    | '"' :: '"' :: '"' :: rest => readLongBasic? (rest.length + 1) (dropFirstLineEnd rest)
    | '\'' :: '\'' :: '\'' :: rest => readLongLiteral? (rest.length + 1) (dropFirstLineEnd rest)
    | '"' :: rest => readBasic? (rest.length + 1) rest
    | '\'' :: rest => readLiteral? rest
    | _ => none
  read.map fun r => (String.ofList r.1, r.2)

/-! ## 3. Names -/

/-- Whether a character may stand in a name without quotes. -/
def isBare (c : Char) : Bool := c.isAlphanum || c == '_' || c == '-'

/-- A name, between quotes or without. -/
def readName? (s : List Char) : Option (String × List Char) :=
  match s with
  | '"' :: rest => (readBasic? (rest.length + 1) rest).map fun r => (String.ofList r.1, r.2)
  | '\'' :: rest => (readLiteral? rest).map fun r => (String.ofList r.1, r.2)
  | _ =>
    let name := s.takeWhile isBare
    if name.isEmpty then none else some (String.ofList name, s.drop name.length)

/-- Names with dots between them: those in front of the last, and the last. -/
def readNames? : Nat → List Char → Option (List String × String × List Char)
  | 0, _ => none
  | n + 1, s =>
    match readName? s with
    | none => none
    | some (name, rest) =>
      match skipSpace rest with
      | '.' :: rest' =>
        (readNames? n (skipSpace rest')).map fun r => (name :: r.1, r.2.1, r.2.2)
      | rest' => some ([], name, rest')

/-! ## 4. Numbers -/

/-- The digits of a text in which underscores may stand between digits only. -/
def digits? (isDigit : Char → Bool) (s : List Char) : Option (List Char) :=
  let rec go (before : Bool) : List Char → Option (List Char)
    | [] => if before then some [] else none
    | '_' :: rest => if before then go false rest else none
    | c :: rest => if isDigit c then (go true rest).map (c :: ·) else none
  go false s

/-- The value of digits in a base. -/
def valueIn (base : Nat) (ds : List Char) : Nat :=
  ds.foldl (fun n c => n * base + (Json.hexValue? c).getD 0) 0

/-- The whole part of a number in decimal digits: no zero in front of others. -/
def decimalDigits? (s : List Char) : Option (List Char) :=
  match digits? Char.isDigit s with
  | some ('0' :: _ :: _) => none
  | r => r

/-- A whole number that fits into 128 bits, of those with a sign or of those without. -/
def fitting? (n : Int) : Option Toml :=
  if -(powerOfTwo 127 : Int) ≤ n ∧ n < powerOfTwo 128 then some (integer n) else none

/-- A whole number. -/
def integer? (s : List Char) : Option Toml :=
  match s with
  | '0' :: 'x' :: rest =>
    (digits? (fun c => (Json.hexValue? c).isSome) rest).bind fun ds => fitting? (valueIn 16 ds)
  | '0' :: 'o' :: rest =>
    (digits? (fun c => '0' ≤ c && c ≤ '7') rest).bind fun ds => fitting? (valueIn 8 ds)
  | '0' :: 'b' :: rest =>
    (digits? (fun c => c == '0' || c == '1') rest).bind fun ds => fitting? (valueIn 2 ds)
  | '+' :: rest => (decimalDigits? rest).bind fun ds => fitting? (valueIn 10 ds)
  | '-' :: rest => (decimalDigits? rest).bind fun ds => fitting? (-(valueIn 10 ds : Int))
  | _ => (decimalDigits? s).bind fun ds => fitting? (valueIn 10 ds)

/-- A number without its sign. -/
def dropSign : List Char → List Char
  | '+' :: rest => rest
  | '-' :: rest => rest
  | s => s

/-- Whether digits times a power of ten are within the numbers of 64 bits. -/
def withinDouble (ds : List Char) (exponent : Int) : Bool :=
  let significant := ds.dropWhile (· == '0')
  if significant.isEmpty then true
  else
    let size := (significant.length : Int) + exponent
    if size < 300 then true
    else if 320 < size then false
    else
      let n := valueIn 10 significant
      let m := if 0 ≤ exponent then Format.double.nearest (n * powerOfTen exponent.toNat) 1
        else Format.double.nearest n (powerOfTen (-exponent).toNat)
      m != .infinite

/-- A number with a point or an exponent. -/
def float? (s : List Char) : Option Toml :=
  let s := dropSign s
  if s == "inf".toList || s == "nan".toList then some float
  else
    let whole := s.takeWhile fun c => c != '.' && c != 'e' && c != 'E'
    let rest := s.drop whole.length
    let (fraction, rest) : Option (List Char) × List Char :=
      match rest with
      | '.' :: tail =>
        let part := tail.takeWhile fun c => c != 'e' && c != 'E'
        (digits? Char.isDigit part, tail.drop part.length)
      | _ => (some [], rest)
    let exponent : Option Int :=
      match rest with
      | [] => some 0
      | _ :: '-' :: tail => (digits? Char.isDigit tail).map fun ds => -(valueIn 10 ds : Int)
      | _ :: tail => (digits? Char.isDigit (match tail with
          | '+' :: more => more
          | more => more)).map fun ds => (valueIn 10 ds : Int)
    match decimalDigits? whole, fraction, exponent with
    | some ds, some fs, some e =>
      if withinDouble (ds ++ fs) (e - fs.length) then some float else none
    | _, _, _ => none

/-! ## 5. Times -/

/-- The value of a text of `width` digits. -/
def fixedNumber? (width : Nat) (s : List Char) : Option (Nat × List Char) :=
  let ds := s.take width
  if ds.length = width ∧ ds.all Char.isDigit then some (valueIn 10 ds, s.drop width) else none

/-- What follows a character. -/
def pass? (c : Char) : List Char → Option (List Char)
  | d :: rest => if c = d then some rest else none
  | [] => none

/-- The text behind a date of the calendar. -/
def passDate? (s : List Char) : Option (List Char) := do
  let (year, s) ← fixedNumber? 4 s
  let s ← pass? '-' s
  let (month, s) ← fixedNumber? 2 s
  let s ← pass? '-' s
  let (day, s) ← fixedNumber? 2 s
  if (Date.exists? ⟨year, month, day⟩) then some s else none

/-- The text behind the seconds of a time, which may be left out. -/
def passSeconds? (s : List Char) : Option (List Char) :=
  match s with
  | ':' :: rest =>
    match fixedNumber? 2 rest with
    | none => none
    | some (second, rest) =>
      if 60 < second then none
      else match rest with
        | '.' :: tail =>
          let ds := tail.takeWhile Char.isDigit
          if ds.isEmpty then none else some (tail.drop ds.length)
        | _ => some rest
  | _ => some s

/-- The text behind a time of day. -/
def passTime? (s : List Char) : Option (List Char) := do
  let (hour, s) ← fixedNumber? 2 s
  let s ← pass? ':' s
  let (minute, s) ← fixedNumber? 2 s
  if 23 < hour ∨ 59 < minute then none else passSeconds? s

/-- Whether a text is nothing, or an offset from universal time. -/
def isOffset (s : List Char) : Bool :=
  match s with
  | [] => true
  | ['Z'] | ['z'] => true
  | sign :: rest =>
    (sign == '+' || sign == '-') &&
      match fixedNumber? 2 rest with
      | some (hours, ':' :: tail) =>
        match fixedNumber? 2 tail with
        | some (minutes, []) => hours ≤ 23 && minutes ≤ 59
        | _ => false
      | _ => false

/-- Whether a text is a date, a time of day, or both with or without an offset. -/
def isTime (s : List Char) : Bool :=
  match passDate? s with
  | some [] => true
  | some (mark :: rest) =>
    (mark == 'T' || mark == 't' || mark == ' ') &&
      match passTime? rest with
      | some rest' => isOffset rest'
      | none => false
  | none => passTime? s == some []

/-! ## 6. Values -/

/-- Whether a character belongs to a value without quotes. -/
def isScalar (c : Char) : Bool :=
  !(isSpace c || c == '\n' || c == '\r' || c == ',' || c == ']' || c == '}' || c == '#' ||
    c == '=' || c == '[' || c == '{' || c == '"' || c == '\'')

/-- The text of a value without quotes: a date may have a time behind a blank. -/
def scalarText (s : List Char) : List Char :=
  let word := s.takeWhile isScalar
  if passDate? word == some [] then
    match s.drop word.length with
    | ' ' :: c :: rest =>
      if c.isDigit then word ++ ' ' :: (c :: rest).takeWhile isScalar else word
    | _ => word
  else word

/-- The value a text without quotes stands for. -/
def scalar? (s : List Char) : Option Toml :=
  if s == "true".toList then some (boolean true)
  else if s == "false".toList then some (boolean false)
  else match integer? s with
    | some v => some v
    | none =>
      match float? s with
      | some v => if decimalDigits? (dropSign s) |>.isSome then none else some v
      | none => if isTime s then some time else none

/-- How deep values may nest. -/
def depthMax : Nat := 80

mutual

/-- A value within `depth` brackets and braces. -/
def readValue? : Nat → Nat → List Char → Option (Toml × List Char)
  | 0, _, _ => none
  | n + 1, depth, s =>
    match s with
    | '"' :: _ => (readText? s).map fun r => (text r.1, r.2)
    | '\'' :: _ => (readText? s).map fun r => (text r.1, r.2)
    | '[' :: rest =>
      if depth < depthMax then
        (readItems? n (depth + 1) (skipLines rest.length rest)).map fun r => (array r.1, r.2)
      else none
    | '{' :: rest =>
      if depth < depthMax then
        (readEntries? n (depth + 1) [] (skipLines rest.length rest)).map fun r =>
          (table .inline r.1, r.2)
      else none
    | _ => (scalar? (scalarText s)).map fun v => (v, s.drop (scalarText s).length)

/-- The items of an array up to its bracket. -/
def readItems? : Nat → Nat → List Char → Option (List Toml × List Char)
  | 0, _, _ => none
  | n + 1, depth, s =>
    match s with
    | ']' :: rest => some ([], rest)
    | _ =>
      match readValue? n depth s with
      | none => none
      | some (v, rest) =>
        match skipLines rest.length rest with
        | ',' :: rest' =>
          (readItems? n depth (skipLines rest'.length rest')).map fun r => (v :: r.1, r.2)
        | ']' :: rest' => some ([v], rest')
        | _ => none

/-- The entries of a table up to its brace, added to those it has. -/
def readEntries? : Nat → Nat → Entries → List Char → Option (Entries × List Char)
  | 0, _, _, _ => none
  | n + 1, depth, es, s =>
    match s with
    | '}' :: rest => some (es, rest)
    | _ =>
      match readNames? n s with
      | none => none
      | some (names, name, '=' :: rest) =>
        match readValue? n depth (skipSpace rest) with
        | none => none
        | some (v, rest) =>
          match enter? names name v .opened es with
          | none => none
          | some (_, es') =>
            match skipLines rest.length rest with
            | ',' :: rest' => readEntries? n depth es' (skipLines rest'.length rest')
            | '}' :: rest' => some (es', rest')
            | _ => none
      | some _ => none

end

/-! ## 7. Documents -/

/-- A statement. -/
def readStatement? (s : List Char) : Option (Statement × List Char) :=
  match s with
  | '[' :: '[' :: rest =>
    match readNames? rest.length (skipSpace rest) with
    | some (names, name, ']' :: ']' :: rest') => some (.itemHeader names name, rest')
    | _ => none
  | '[' :: rest =>
    match readNames? rest.length (skipSpace rest) with
    | some (names, name, ']' :: rest') => some (.header names name, rest')
    | _ => none
  | _ =>
    match readNames? s.length s with
    | some (names, name, '=' :: rest) =>
      (readValue? (s.length + 1) 0 (skipSpace rest)).map fun r => (.entry names name r.1, r.2)
    | _ => none

/-- The statements of a document, one a line. -/
def readStatements? : Nat → List Char → Option (List Statement)
  | 0, _ => none
  | n + 1, s =>
    match skipLines s.length s with
    | [] => some []
    | s' =>
      match readStatement? s' with
      | none => none
      | some (statement, rest) =>
        match skipComment (skipSpace rest) with
        | [] => some [statement]
        | rest' =>
          match passLineEnd? rest' with
          | some rest'' => (readStatements? n rest'').map (statement :: ·)
          | none => none

/-- The text behind a mark of the byte order. -/
def skipMark : List Char → List Char
  | '\uFEFF' :: rest => rest
  | s => s

/-- The entries of the document a text writes. -/
def readDocument? (s : List Char) : Option Entries :=
  (readStatements? (s.length + 1) (skipMark s)).bind ofStatements?

end CodeInsight.Toml
