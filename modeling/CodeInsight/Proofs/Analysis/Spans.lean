import CodeInsight.Proofs.Analysis.Lengths
import Mathlib.Order.Bounds.Basic
import Mathlib.Order.Lattice.Nat

/-!
# What a span of braces depends on

* `LinesBalance` says of so many lines of a text, from a given one on, that they are all there and
  that their braces balance; **the span is the least such number of lines**, and there is none
  exactly if there is no such number (`braceSpan_eq_some_iff_isLeast`, `braceSpan_eq_none_iff`);
* so only the lines of the span decide (`braceSpan_of_linesFrom`), and lines put in front of a text
  put the span off by as many (`braceSpan_append_whole`).
-/

namespace CodeInsight.Analysis

open CodeInsight.Text

/-- The `m` lines of a text from line `first` on, the first being 1 and 0 meaning 1 as well. -/
def linesFrom (s : List Char) (first m : Nat) : List (List Char) :=
  ((lines s).drop (first - 1)).take m

/-- `m` lines from line `first` on, at least one, are all there, and they open a brace and, from the
    first one on, close at least as many as they open. -/
structure LinesBalance (s : List Char) (first m : Nat) : Prop where
  some : 1 ≤ m
  there : max first 1 + m - 1 ≤ (lines s).length
  balance : BracesBalance (linesFrom s first m).flatten

section Spans

variable {s s' t : List Char} {first m n : Nat}

theorem not_bracesBalance_nil : ¬ BracesBalance [] := by
  rintro ⟨r, body, same, -⟩
  simp at same

/-- Lines balance only if they are some, and they are there if enough lines are left. -/
theorem linesBalance_iff : LinesBalance s first m ↔
    m ≤ ((lines s).drop (first - 1)).length ∧ BracesBalance (linesFrom s first m).flatten := by
  rw [List.length_drop]
  constructor
  · intro h
    have := h.there
    have := h.some
    exact ⟨by omega, h.balance⟩
  · intro ⟨within, balance⟩
    have some : 1 ≤ m := by
      refine Nat.pos_of_ne_zero ?_
      rintro rfl
      exact not_bracesBalance_nil balance
    exact ⟨some, by omega, balance⟩

/-- **A span is the least number of lines that balance.** -/
theorem braceSpan_eq_some_iff_isLeast :
    braceSpan s first = some n ↔ IsLeast {m | LinesBalance s first m} n := by
  rw [braceSpan_eq_some_iff]
  constructor
  · intro h
    refine ⟨linesBalance_iff.mpr ⟨h.within, h.balanced⟩, fun m balance => ?_⟩
    by_contra below
    exact h.least m (by omega) balance.balance
  · intro ⟨balance, least⟩
    obtain ⟨within, balanced⟩ := linesBalance_iff.mp balance
    refine ⟨within, balanced, fun m below earlier => ?_⟩
    have := least (linesBalance_iff.mpr ⟨by omega, earlier⟩)
    omega

/-- There is no span exactly if no number of lines balances. -/
theorem braceSpan_eq_none_iff : braceSpan s first = none ↔ ∀ m, ¬ LinesBalance s first m := by
  constructor
  · intro none m balance
    -- of the numbers of lines that balance one is the least
    have least := Nat.sInf_mem (s := {m | LinesBalance s first m}) ⟨m, balance⟩
    have span : braceSpan s first = some (sInf {m | LinesBalance s first m}) :=
      braceSpan_eq_some_iff_isLeast.mpr ⟨least, fun k hk => Nat.sInf_le hk⟩
    rw [none] at span
    cases span
  · intro never
    refine Option.eq_none_iff_forall_not_mem.mpr fun n span => ?_
    exact never n (braceSpan_eq_some_iff_isLeast.mp span).1

/-- **Only the lines of the span decide**: a text with the same lines there has the same span. -/
theorem braceSpan_of_linesFrom (h : braceSpan s first = some n)
    (same : linesFrom s' first n = linesFrom s first n) : braceSpan s' first = some n := by
  obtain ⟨balance, least⟩ := braceSpan_eq_some_iff_isLeast.mp h
  obtain ⟨within, balanced⟩ := linesBalance_iff.mp balance
  have length := congrArg List.length same
  simp only [linesFrom, List.length_take] at length
  have beginnings {m : Nat} (below : m ≤ n) : linesFrom s' first m = linesFrom s first m := by
    have taken := congrArg (List.take m) same
    simpa only [linesFrom, List.take_take, Nat.min_eq_left below] using taken
  refine braceSpan_eq_some_iff_isLeast.mpr ⟨linesBalance_iff.mpr ⟨by omega, ?_⟩, ?_⟩
  · rw [same]
    exact balanced
  · intro m earlier
    by_contra below
    have balance' := (linesBalance_iff.mp earlier).2
    rw [beginnings (by omega)] at balance'
    have := least (linesBalance_iff.mpr ⟨by omega, balance'⟩)
    omega

/-- The span is that of the lines from its first on. -/
theorem braceSpan_congr (same : (lines s').drop (first - 1) = (lines s).drop (first - 1)) :
    braceSpan s' first = braceSpan s first := by
  rw [braceSpan, braceSpan, same]

/-- **Whole lines in front of a text put a span off** by as many lines. -/
theorem braceSpan_append_whole (whole : WholeLines t) (s : List Char) (first : Nat) :
    braceSpan (t ++ s) (max first 1 + (lines t).length) = braceSpan s first := by
  have skipped : max first 1 + (lines t).length - 1 = (lines t).length + (first - 1) := by omega
  rw [braceSpan, braceSpan, lines_append_whole whole, skipped, ← List.drop_drop, List.drop_left]

/-- **The span of braces.** For every text and every line to begin with, 0 meaning the first as
    well, it is the least number of lines, at least one, that are all there, open a brace and close,
    from the first one on, at least as many as they open; and there is none if there is no such
    number. So it stays the same whatever is written in the lines before, as long as they are as
    many; whatever is written behind the last line of it as well; and it stays the same for a line
    that whole lines in front of the text put off by as many. -/
theorem braceSpan_lines (s : List Char) (first : Nat) :
    (∀ n, braceSpan s first = some n ↔ IsLeast {m | LinesBalance s first m} n) ∧
      (braceSpan s first = none ↔ ∀ m, ¬ LinesBalance s first m) ∧
      (∀ before before' behind s', lines s = before ++ behind → lines s' = before' ++ behind →
        before.length = before'.length → before.length < max first 1 →
          braceSpan s' first = braceSpan s first) ∧
      (∀ n s', braceSpan s first = some n → linesFrom s' first n = linesFrom s first n →
        braceSpan s' first = some n) ∧
      ∀ t, WholeLines t →
        braceSpan (t ++ s) (max first 1 + (lines t).length) = braceSpan s first := by
  refine ⟨fun n => braceSpan_eq_some_iff_isLeast, braceSpan_eq_none_iff, ?_,
    fun n s' => braceSpan_of_linesFrom, fun t whole => braceSpan_append_whole whole s first⟩
  intro before before' behind s' split split' equal above
  have above : before.length ≤ first - 1 := by omega
  refine braceSpan_congr ?_
  rw [split, split', List.drop_append, List.drop_append, List.drop_of_length_le above,
    List.drop_of_length_le (equal ▸ above), equal]

/-- A body of three lines from the second line on, with a brace put into the line before it and
    braces into the line behind it, and two lines in front of all. -/
theorem braceSpan_lines_threeLines :
    let s := "a\nf() \x7b\n  x\n\x7d\nb".toList
    let before := "\x7b\nf() \x7b\n  x\n\x7d\nb".toList
    let behind := "a\nf() \x7b\n  x\n\x7d\n\x7d \x7b".toList
    let front := "\x7b\r\n\n".toList
    IsLeast {m | LinesBalance s 2 m} 3 ∧
      linesFrom behind 2 3 = linesFrom s 2 3 ∧ WholeLines front ∧
      braceSpan before 2 = some 3 ∧ braceSpan behind 2 = some 3 ∧
      braceSpan (front ++ s) 4 = some 3 := by
  intro s before behind front
  obtain ⟨least, -, edited, changed, shifted⟩ := braceSpan_lines s 2
  have span : braceSpan s 2 = some 3 := by decide
  have same : linesFrom behind 2 3 = linesFrom s 2 3 := by decide
  have whole : WholeLines front := .inr (by decide)
  have body : lines s = [['a']] ++ (lines s).drop 1 := by decide
  have body' : lines before = [['{']] ++ (lines s).drop 1 := by decide
  refine ⟨(least 3).mp span, same, whole, ?_, changed 3 behind span same, ?_⟩
  · exact (edited _ _ _ before body body' rfl (by decide)).trans span
  · exact (shifted front whole).trans span

end Spans

end CodeInsight.Analysis
