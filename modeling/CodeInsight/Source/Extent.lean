import CodeInsight.Text.Blank
import CodeInsight.Text.Cursor
import CodeInsight.Text.Lines

/-!
# How far a declaration reaches

* between braces (`bracedExtent`): to the brace that closes its body; a declaration without a body
  ends with a semicolon outside all parentheses and brackets, which are counted in 32 bits; where
  neither is found it reaches to the end of the text;
* by indentation (`indentedExtent`): the line it starts in and the lines that follow as long as
  they are blank or indented deeper, without the blank ones at the end.

Both are the beginning of the text they are given (`bracedExtent_prefix`).
-/

namespace CodeInsight.Source

open CodeInsight.Text

/-! ## 1. Braces -/

/-- The text up to the brace that closes `depth` open ones. -/
def bodyExtent (depth : Nat) : List Char → List Char
  | [] => []
  | c :: rest =>
    if c = '{' then c :: bodyExtent (depth + 1) rest
    else if c = '}' then
      if depth ≤ 1 then [c] else c :: bodyExtent (depth - 1) rest
    else c :: bodyExtent depth rest

/-- The text up to the end of the body or, before any brace, up to a semicolon outside
    `groups` open parentheses and brackets. Closing ones may outnumber opening ones, and the count
    wraps around where 32 bits do not hold it. -/
def headExtent (groups : Int32) : List Char → List Char
  | [] => []
  | c :: rest =>
    if c = '(' ∨ c = '[' then c :: headExtent (groups + 1) rest
    else if c = ')' ∨ c = ']' then c :: headExtent (groups - 1) rest
    else if c = ';' ∧ groups ≤ 0 then [c]
    else if c = '{' then c :: bodyExtent 1 rest
    else c :: headExtent groups rest

/-- The extent of a declaration whose body stands between braces. -/
def bracedExtent (s : List Char) : List Char := headExtent 0 s

theorem bodyExtent_prefix (depth : Nat) (s : List Char) : bodyExtent depth s <+: s := by
  induction s generalizing depth with
  | nil => simp [bodyExtent]
  | cons c rest ih =>
    unfold bodyExtent
    split
    · simpa using ih (depth + 1)
    · split
      · split
        · simp
        · simpa using ih (depth - 1)
      · simpa using ih depth

theorem headExtent_prefix (groups : Int32) (s : List Char) : headExtent groups s <+: s := by
  induction s generalizing groups with
  | nil => simp [headExtent]
  | cons c rest ih =>
    unfold headExtent
    split
    · simpa using ih (groups + 1)
    · split
      · simpa using ih (groups - 1)
      · split
        · simp
        · split
          · simpa using bodyExtent_prefix 1 rest
          · simpa using ih groups

/-- **A declaration's extent is the beginning of the text it starts.** -/
theorem bracedExtent_prefix (s : List Char) : bracedExtent s <+: s := headExtent_prefix 0 s

/-! ## 2. Indentation -/

/-- The bytes a line is indented by. -/
def indentation (l : List Char) : Nat := utf8Length (l.takeWhile isBlank)

/-- Whether a line belongs to the block below a declaration in column `column`. -/
def inBlock (column : Nat) (l : List Char) : Bool := allBlank l || decide (column < indentation l)

/-- The lines without the blank ones at the end. -/
def dropBlankEnd (ls : List (List Char)) : List (List Char) :=
  (ls.reverse.dropWhile allBlank).reverse

/-- The extent of a declaration in column `column` whose body is indented. -/
def indentedExtent (column : Nat) (s : List Char) : List Char :=
  match pieces '\n' s with
  | [] => []
  | first :: rest => joinLines (first :: dropBlankEnd (rest.takeWhile (inBlock column)))

end CodeInsight.Source
