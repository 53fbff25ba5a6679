/-!
# Blank characters

* `isBlank` is Unicode's White_Space property: wider than core's `Char.isWhitespace`, which knows
  four of these characters (`isBlank_of_isWhitespace`);
* `trimStart` and `trim` take blanks off the front, and off both ends, of a text.
-/

namespace CodeInsight.Text

/-- Unicode's White_Space property. -/
def isBlank (c : Char) : Bool :=
  let n := c.toNat
  (9 ≤ n && n ≤ 13) || n == 32 || n == 0x85 || n == 0xA0 || n == 0x1680 ||
    (0x2000 ≤ n && n ≤ 0x200A) || n == 0x2028 || n == 0x2029 || n == 0x202F || n == 0x205F ||
    n == 0x3000

/-- What core calls whitespace is blank. -/
theorem isBlank_of_isWhitespace (c : Char) (h : c.isWhitespace = true) : isBlank c = true := by
  simp only [Char.isWhitespace, Bool.or_eq_true, decide_eq_true_eq] at h
  rcases h with ((rfl | rfl) | rfl) | rfl <;> decide

/-- The text without the blanks in front. -/
def trimStart (s : List Char) : List Char := s.dropWhile isBlank

/-- The text without the blanks at both ends. -/
def trim (s : List Char) : List Char := ((trimStart s).reverse.dropWhile isBlank).reverse

/-- Whether a text is empty or blank throughout. -/
def allBlank (s : List Char) : Bool := s.all isBlank

@[simp] theorem trimStart_nil : trimStart [] = [] := rfl

theorem trimStart_suffix (s : List Char) : trimStart s <:+ s := List.dropWhile_suffix _

/-- Nothing is left of a text exactly when it is blank throughout. -/
theorem trimStart_eq_nil_iff (s : List Char) : trimStart s = [] ↔ allBlank s = true := by
  induction s with
  | nil => simp [trimStart, allBlank]
  | cons c s ih =>
    by_cases h : isBlank c = true
    · rw [trimStart, List.dropWhile_cons_of_pos h, allBlank, List.all_cons, h, Bool.true_and]
      exact ih
    · simp [trimStart, allBlank, h]

end CodeInsight.Text
