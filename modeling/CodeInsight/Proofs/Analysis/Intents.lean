import CodeInsight.Analysis.Intent
import CodeInsight.Proofs.Text.Windows
import Mathlib.Data.List.DropRight

/-!
# The window in which intents are looked for

* a wider window begins with more lines, so what is found in a narrower one is found in it too
  (`occursIn_lastLines`);
* no cue looks at line ends (`cue_blind`), so **in a window that holds all lines a cue is found
  exactly if it is anywhere in the text** (`mem_detect_iff`).
-/

namespace CodeInsight.Intent

open CodeInsight.Text

variable {i : Intent} {s s' : List Char} {w w' : Nat}

/-! ## 1. Cues -/

/-- No cue looks at line ends. -/
theorem cue_blind (i : Intent) : i.cue.blind = true := by
  cases i with
  | testing => decide
  | refactoring => decide
  | integration => decide

/-- There is no cue in an empty text. -/
theorem cue_nowhere (i : Intent) : i.cue.occursIn [] = false := by
  cases i with
  | testing => decide
  | refactoring => decide
  | integration => decide

/-- **What is in a window is in every wider one.** -/
theorem occursIn_lastLines (wider : w ≤ w') (h : i.cue.occursIn (lastLines w s) = true) :
    i.cue.occursIn (lastLines w' s) = true := by
  have fewer : (lines s).length - w' ≤ (lines s).length - w := by omega
  obtain ⟨k, from_⟩ := Nat.exists_eq_add_of_le fewer
  -- the lines of the wider window are some more, and those of the narrower one behind them
  obtain ⟨more, split⟩ : ∃ more, (lines s).drop ((lines s).length - w') =
      more ++ (lines s).drop ((lines s).length - w) := by
    refine ⟨((lines s).drop ((lines s).length - w')).take k, ?_⟩
    rw [from_, ← List.drop_drop, List.take_append_drop]
  rw [lastLines] at h ⊢
  rw [split]
  rcases eq_or_ne more [] with rfl | some
  · exact h
  rcases eq_or_ne ((lines s).drop ((lines s).length - w)) [] with none | some'
  · rw [none] at h
    exact absurd h (Bool.eq_false_iff.mp (cue_nowhere i))
  · rw [joinLines, joinWith_append _ some some']
    exact Pattern.occursIn_behindLines h _

/-! ## 2. Signals -/

theorem mem_intents_iff :
    i ∈ (detect s w).map Signal.intent ↔ i.cue.occursIn (lastLines w s) = true := by
  have there : i ∈ all := by cases i <;> decide
  simp [detect, signal, there]

/-- **In a window that holds all lines** an intent is found exactly if its cue is somewhere in the
    text. -/
theorem mem_detect_iff (whole : (lines s).length ≤ w) :
    i ∈ (detect s w).map Signal.intent ↔
      ∃ a b : Cursor, a.text = s ∧ i.cue.Reaches a b := by
  rw [mem_intents_iff, lastLines_of_length_le whole,
    Pattern.occursIn_joinLines_lines (cue_blind i), Pattern.occursIn_iff]

/-- **The intents of a window.** For every text and every number of lines: only the last lines of
    the text, so many, decide which signals there are; in a wider window there are the same and
    maybe more, in the same order; and in one that holds all lines there is a signal of an intent
    exactly if its cue describes a piece of the text, whatever ends the lines. -/
theorem detect_window (s : List Char) (w : Nat) :
    (∀ s', (lines s').rtake w = (lines s).rtake w → detect s' w = detect s w) ∧
      (∀ w', w ≤ w' → (detect s w).Sublist (detect s w')) ∧
      ((lines s).length ≤ w → ∀ i, i ∈ (detect s w).map Signal.intent ↔
        ∃ a b : Cursor, a.text = s ∧ i.cue.Reaches a b) := by
  refine ⟨fun s' same => ?_, fun w' wider => ?_, fun whole i => mem_detect_iff whole⟩
  · rw [List.rtake, List.rtake] at same
    rw [detect, detect, lastLines, lastLines, same]
  · exact (List.monotone_filter_right all fun i => occursIn_lastLines wider).map signal

/-- A note that goes over a line end, with another cue in the line above it: two lines show the one,
    three lines both. -/
theorem detect_window_twoLines :
    let s := "it(x)\r\n//\r\n  cleanup\n".toList
    let s' := "fetch(x)\n//\n  cleanup".toList
    (lines s').rtake 2 = (lines s).rtake 2 ∧ (lines s).length ≤ 3 ∧
      detect s' 2 = [signal refactoring] ∧ (detect s 2).Sublist (detect s 3) ∧
      detect s 3 = [signal testing, signal refactoring] ∧
      (∃ a b : Cursor, a.text = s ∧ testing.cue.Reaches a b) ∧
      ¬ ∃ a b : Cursor, a.text = s ∧ integration.cue.Reaches a b := by
  intro s s'
  obtain ⟨decided, wider, -⟩ := detect_window s 2
  obtain ⟨-, -, found⟩ := detect_window s 3
  have same : (lines s').rtake 2 = (lines s).rtake 2 := by decide
  have whole : (lines s).length ≤ 3 := by decide
  have two : detect s 2 = [signal refactoring] := by decide
  have three : detect s 3 = [signal testing, signal refactoring] := by decide
  rw [three] at found
  exact ⟨same, whole, (decided s' same).trans two, wider 3 (by decide), three,
    (found whole testing).mp (by decide), (found whole integration).not.mp (by decide)⟩

end CodeInsight.Intent
