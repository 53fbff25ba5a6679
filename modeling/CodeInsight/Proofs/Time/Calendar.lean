import CodeInsight.Time.Calendar
import Mathlib.Algebra.Order.Ring.Nat

/-!
# The calendar there and back

* a year has as many days as lie between its beginning and that of the next (`daysBefore_succ`), and
  every day lies in its year (`yearOfDay_spec`);
* **the date of a day is in the calendar, and its number is that of the day** (`dateOfDay_spec`).
-/

namespace CodeInsight.Calendar

/-- A year has 365 days, or 366. -/
theorem daysBefore_succ (year : Int) :
    daysBefore (year + 1) = daysBefore year + (monthLengths year).sum := by
  have length : (monthLengths year).sum = if isLeap year then 366 else 365 := by
    unfold monthLengths
    cases isLeap year <;> rfl
  rw [length]
  unfold daysBefore
  cases leap : isLeap year with
  | true =>
    simp only [isLeap, ne_eq, decide_not, Bool.and_eq_true, decide_eq_true_eq, Bool.or_eq_true,
      Bool.not_eq_true', decide_eq_false_iff_not] at leap
    simp only [if_true]
    omega
  | false =>
    simp only [isLeap, ne_eq, decide_not, Bool.and_eq_false_iff, decide_eq_false_iff_not,
      Bool.or_eq_false_iff, Bool.not_eq_false', decide_eq_true_eq] at leap
    simp only [Bool.false_eq_true, if_false]
    omega

/-- **Every day lies in its year.** -/
theorem yearOfDay_spec (n : Int) :
    daysBefore (yearOfDay n) ≤ n ∧ n < daysBefore (yearOfDay n + 1) := by
  have near : daysBefore (n * 400 / 146097 - 1) ≤ n ∧ n < daysBefore (n * 400 / 146097 + 2) := by
    unfold daysBefore
    omega
  unfold yearOfDay
  dsimp only
  split
  case isTrue early =>
    rw [Int.sub_add_cancel]
    exact ⟨near.1, early⟩
  case isFalse notEarly =>
    split
    case isTrue late =>
      rw [Int.add_assoc]
      exact ⟨late, near.2⟩
    case isFalse notLate => omega

/-- The month of a day is one of those given, the day is in it, and the days before it are those of
    the months before and of the month itself. -/
theorem monthAndDay_spec {lengths : List Nat} {n : Nat} (h : n < lengths.sum) (month : Nat) :
    ∃ k length, (monthAndDay month n lengths).1 = month + k ∧ lengths[k]? = some length ∧
      1 ≤ (monthAndDay month n lengths).2 ∧ (monthAndDay month n lengths).2 ≤ length ∧
      (lengths.take k).sum + ((monthAndDay month n lengths).2 - 1) = n := by
  induction lengths generalizing month n with
  | nil => cases h
  | cons length rest ih =>
    rw [List.sum_cons] at h
    rw [monthAndDay]
    split
    case isTrue here => exact ⟨0, length, rfl, rfl, by simp, here, by simp⟩
    case isFalse later =>
      obtain ⟨k, length', month', there, low, high, days⟩ :=
        ih (n := n - length) (by omega) (month + 1)
      refine ⟨k + 1, length', by omega, there, low, high, ?_⟩
      rw [List.take_succ_cons, List.sum_cons]
      omega

/-- Days are counted on by the lengths of months. -/
theorem foldl_lengths (lengths : List Nat) (days : Nat) :
    lengths.foldl (fun days length => days + length) days = lengths.sum + days := by
  induction lengths generalizing days with
  | nil => simp
  | cons length rest ih =>
    rw [List.foldl_cons, ih, List.sum_cons]
    omega

/-- **The date of a day is in the calendar, and is the date of that day.** -/
theorem dateOfDay_spec (n : Int) :
    (dateOfDay n).exists? = true ∧ (dateOfDay n).dayNumber = n ∧
      1 ≤ (dateOfDay n).month ∧ (dateOfDay n).month ≤ 12 ∧ (dateOfDay n).day ≤ 31 := by
  obtain ⟨begun, notOver⟩ := yearOfDay_spec n
  rw [daysBefore_succ] at notOver
  have inside : (n - daysBefore (yearOfDay n)).toNat < (monthLengths (yearOfDay n)).sum := by
    omega
  obtain ⟨k, length, month, there, low, high, days⟩ := monthAndDay_spec inside 1
  rcases hmd : monthAndDay 1 (n - daysBefore (yearOfDay n)).toNat
    (monthLengths (yearOfDay n)) with ⟨m, d⟩
  rw [hmd] at month low high days
  dsimp only at month low high days
  have date : dateOfDay n = ⟨yearOfDay n, k + 1, d⟩ := by
    unfold dateOfDay
    dsimp only
    rw [hmd, month, Nat.add_comm]
  have few : k < 12 := (List.getElem?_eq_some_iff.mp there).1
  have short : length ≤ 31 := by
    have lengths : ∀ l ∈ monthLengths (yearOfDay n), l ≤ 31 := by
      unfold monthLengths
      cases isLeap (yearOfDay n) <;> decide
    exact lengths length (List.mem_of_getElem? there)
  rw [date]
  refine ⟨?_, ?_, Nat.le_add_left 1 k, few, Nat.le_trans high short⟩
  · unfold Date.exists?
    dsimp only
    rw [there]
    simp [low, high]
  · unfold Date.dayNumber
    dsimp only
    rw [foldl_lengths, Nat.add_sub_cancel]
    omega

end CodeInsight.Calendar
