/-!
# Classes of characters given by ranges of code points

* a class is a list of ranges, both ends included (`RangeTable`), and a character is in it when
  one of the ranges holds its code point (`RangeTable.holds`);
* the tables below U+0080 are left to core's own tests, so every table here starts at U+0080
  (`RangeTable.holds_eq_false_of_lt` says that nothing below a table's start is in it).
-/

namespace CodeInsight.Text

/-- A class of characters: ranges of code points, both ends included. -/
abbrev RangeTable := List (Nat × Nat)

/-- Whether one of the ranges holds the code point of `c`. -/
def RangeTable.holds (t : RangeTable) (c : Char) : Bool :=
  t.any fun r => r.1 ≤ c.toNat && c.toNat ≤ r.2

theorem RangeTable.holds_eq_false_of_lt (t : RangeTable) (c : Char)
    (h : ∀ r ∈ t, c.toNat < r.1) : t.holds c = false := by
  unfold RangeTable.holds
  rw [List.any_eq_false]
  intro r hr
  have := h r hr
  simp
  omega

end CodeInsight.Text
