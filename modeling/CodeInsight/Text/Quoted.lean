import CodeInsight.Text.Graphic

/-!
# Text between quotes in messages

* `quoted` puts a text between double quotes so that it can be read back: quotes, backslashes and
  the common control characters by short escapes, characters that show nothing or change the one
  before them by their number.
-/

namespace CodeInsight.Text

/-- A character by its number. -/
def numbered (c : Char) : List Char :=
  '\\' :: 'u' :: '{' :: (Nat.toDigits 16 c.toNat ++ ['}'])

/-- One character between quotes. -/
def quotedChar (c : Char) : List Char :=
  match c with
  | '"' => ['\\', '"']
  | '\\' => ['\\', '\\']
  | '\n' => ['\\', 'n']
  | '\t' => ['\\', 't']
  | '\r' => ['\\', 'r']
  | '\x00' => ['\\', '0']
  | c => if isExtending c || !isGraphic c then numbered c else [c]

/-- A text between double quotes. -/
def quoted (s : String) : String :=
  String.ofList ('"' :: (s.toList.flatMap quotedChar ++ ['"']))

end CodeInsight.Text
