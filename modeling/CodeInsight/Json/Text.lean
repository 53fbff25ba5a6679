import CodeInsight.Json.Basic

/-!
# How JSON writes text

* `escape` writes a text between quotes: the quote, the backslash and the control characters below
  U+0020 are escaped, in their short form where there is one, all else stands as it is;
* `unescape?` reads it back, and refuses an escape that names half of a surrogate pair alone;
* **main statement**: what was escaped reads back as it was (`unescape?_escape`).
-/

namespace CodeInsight.Json

/-! ## 1. Hexadecimal digits -/

/-- The digit of a number below 16, in lower case. -/
def hexDigit (n : Nat) : Char :=
  if n < 10 then Char.ofNat (48 + n) else Char.ofNat (87 + n)

/-- The value of a hexadecimal digit of either case. -/
def hexValue? (c : Char) : Option Nat :=
  if '0' ≤ c ∧ c ≤ '9' then some (c.toNat - 48)
  else if 'a' ≤ c ∧ c ≤ 'f' then some (c.toNat - 87)
  else if 'A' ≤ c ∧ c ≤ 'F' then some (c.toNat - 55)
  else none

theorem hexValue?_hexDigit : ∀ n, n < 16 → hexValue? (hexDigit n) = some n := by decide

/-- The number that four hexadecimal digits write. -/
def hex4? (a b c d : Char) : Option Nat :=
  match hexValue? a, hexValue? b, hexValue? c, hexValue? d with
  | some a, some b, some c, some d => some (((a * 16 + b) * 16 + c) * 16 + d)
  | _, _, _, _ => none

/-! ## 2. Writing -/

/-- One character as it stands between quotes. -/
def escapeChar (c : Char) : List Char :=
  if c = '"' then ['\\', '"']
  else if c = '\\' then ['\\', '\\']
  else if c = '\x08' then ['\\', 'b']
  else if c = '\x0c' then ['\\', 'f']
  else if c = '\n' then ['\\', 'n']
  else if c = '\r' then ['\\', 'r']
  else if c = '\t' then ['\\', 't']
  else if c.toNat < 32 then ['\\', 'u', '0', '0', hexDigit (c.toNat / 16), hexDigit (c.toNat % 16)]
  else [c]

/-- A text as it stands between quotes. -/
def escape (s : List Char) : List Char := s.flatMap escapeChar

/-! ## 3. Reading -/

/-- The character behind a backslash, for the escapes of two characters. -/
def shortEscape? : Char → Option Char
  | '"' => some '"'
  | '\\' => some '\\'
  | '/' => some '/'
  | 'b' => some '\x08'
  | 'f' => some '\x0c'
  | 'n' => some '\n'
  | 'r' => some '\r'
  | 't' => some '\t'
  | _ => none

/-- The text that stands between quotes, unless an escape is no escape or names half of a
    surrogate pair without the other half. -/
def unescape? : List Char → Option (List Char)
  | [] => some []
  | '\\' :: 'u' :: a :: b :: c :: d :: rest =>
    match hex4? a b c d with
    | none => none
    | some n =>
      if n < 0xD800 ∨ 0xDFFF < n then (unescape? rest).map (Char.ofNat n :: ·)
      else if 0xDC00 ≤ n then none
      else match rest with
        | '\\' :: 'u' :: a' :: b' :: c' :: d' :: rest' =>
          match hex4? a' b' c' d' with
          | none => none
          | some m =>
            if 0xDC00 ≤ m ∧ m ≤ 0xDFFF then
              (unescape? rest').map
                (Char.ofNat (0x10000 + (n - 0xD800) * 0x400 + (m - 0xDC00)) :: ·)
            else none
        | _ => none
  | '\\' :: e :: rest =>
    match shortEscape? e with
    | none => none
    | some c => (unescape? rest).map (c :: ·)
  | ['\\'] => none
  | c :: rest => (unescape? rest).map (c :: ·)

/-! ## 4. Reading what was written -/

/-- What one character was escaped to reads back as that character. -/
theorem unescape?_escapeChar (c : Char) (rest : List Char) :
    unescape? (escapeChar c ++ rest) = (unescape? rest).map (c :: ·) := by
  unfold escapeChar
  split
  · subst_vars; simp [unescape?, shortEscape?]
  split
  · subst_vars; simp [unescape?, shortEscape?]
  split
  · subst_vars; simp [unescape?, shortEscape?]
  split
  · subst_vars; simp [unescape?, shortEscape?]
  split
  · subst_vars; simp [unescape?, shortEscape?]
  split
  · subst_vars; simp [unescape?, shortEscape?]
  split
  · subst_vars; simp [unescape?, shortEscape?]
  split
  · rename_i h
    have h0 : hexValue? '0' = some 0 := by decide
    have h1 := hexValue?_hexDigit (c.toNat / 16) (by omega)
    have h2 := hexValue?_hexDigit (c.toNat % 16) (by omega)
    have hx : hex4? '0' '0' (hexDigit (c.toNat / 16)) (hexDigit (c.toNat % 16)) = some c.toNat := by
      simp only [hex4?, h0, h1, h2]
      congr 1
      omega
    simp only [List.cons_append, List.nil_append, unescape?, hx]
    rw [if_pos (by omega)]
    simp
  · rename_i h _ _ _ _ _ _
    simp only [List.cons_append, List.nil_append]
    rw [unescape?.eq_def]
    split <;> simp_all

/-- **What was escaped reads back as it was.** -/
theorem unescape?_escape (s : List Char) : unescape? (escape s) = some s := by
  induction s with
  | nil => simp [escape, unescape?]
  | cons c s ih =>
    have : escape (c :: s) = escapeChar c ++ escape s := by simp [escape]
    rw [this, unescape?_escapeChar, ih]
    rfl

/-- A text as a JSON string. -/
def ofText (s : String) : Json := string (escape s.toList)

/-- The text of a JSON string, if it is one and its escapes name characters. -/
def text? : Json → Option String
  | string raw => (unescape? raw).map String.ofList
  | _ => none

@[simp] theorem text?_ofText (s : String) : (ofText s).text? = some s := by
  simp [ofText, text?, unescape?_escape]

end CodeInsight.Json
