import CodeInsight.Text.Pieces

/-!
# The lines of a file

* a line ends with a line feed, or with a carriage return and a line feed, and a final line end
  opens no further line (`lines`);
* a carriage return that no line feed follows stays in its line;
* `lastLines n` is the text of the last `n` lines.
-/

namespace CodeInsight.Text

/-- The lines with a line feed between each two. -/
abbrev joinLines (ls : List (List Char)) : List Char := joinWith '\n' ls

/-- The line without the carriage return at its end, if it has one. -/
def dropReturn (l : List Char) : List Char :=
  if l.getLast? = some '\r' then l.dropLast else l

/-- The pieces of a text as lines: each piece but the last was ended by a line feed, and an
    empty last piece is no line. -/
def endLines : List (List Char) → List (List Char)
  | [] => []
  | [last] => if last.isEmpty then [] else [last]
  | piece :: next :: rest => dropReturn piece :: endLines (next :: rest)

/-- The lines of a text. -/
def lines (s : List Char) : List (List Char) := endLines (pieces '\n' s)

@[simp] theorem lines_nil : lines [] = [] := rfl

/-- The last `n` lines of a text, joined by line feeds. -/
def lastLines (n : Nat) (s : List Char) : List Char :=
  let ls := lines s
  joinLines (ls.drop (ls.length - n))

/-- A window at least as long as the file takes every line. -/
theorem lastLines_of_length_le {n : Nat} {s : List Char} (h : (lines s).length ≤ n) :
    lastLines n s = joinLines (lines s) := by
  simp [lastLines, Nat.sub_eq_zero_of_le h]

end CodeInsight.Text
