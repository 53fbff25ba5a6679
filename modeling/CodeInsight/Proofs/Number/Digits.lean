import CodeInsight.Json.Decode
import CodeInsight.Time.Format
import CodeInsight.Proofs.Text.Lines
import Mathlib.Algebra.Order.Ring.Nat

/-!
# Decimal digits

* the digits of a number are digits, and their value is the number (`value_toDigits`); only those of
  zero begin with a zero (`head?_toDigits`);
* `Instant.padded` adds zeros in front, which change neither (`value_padded`);
* digits are read up to what is none (`takeWhile_digits`, `dropWhile_digits`).
-/

namespace CodeInsight

/-- The value of digits, each ten times the one behind it. -/
def digitsFrom (n : Nat) (ds : List Char) : Nat := ds.foldl (fun n c => 10 * n + (c.toNat - 48)) n

section Digits

variable {n : Nat} {ds rest : List Char}

theorem isDigit_toDigits : ∀ c ∈ Nat.toDigits 10 n, c.isDigit = true :=
  fun _ h => Nat.isDigit_of_mem_toDigits (by decide) (by decide) h

/-- **The digits of a number have its value.** -/
theorem value_toDigits (n : Nat) : digitsFrom 0 (Nat.toDigits 10 n) = n :=
  Nat.ofDigitChars_ten_toDigits

/-- Digits tell numbers apart. -/
theorem toDigits_inj {m n : Nat} : Nat.toDigits 10 m = Nat.toDigits 10 n ↔ m = n := by
  refine ⟨fun same => ?_, by rintro rfl; rfl⟩
  have value := congrArg (digitsFrom 0) same
  rw [value_toDigits, value_toDigits] at value
  exact value

theorem length_toDigits {width : Nat} (hw : 0 < width) (h : n < 10 ^ width) :
    (Nat.toDigits 10 n).length ≤ width :=
  (Nat.length_toDigits_le_iff (by decide) hw).mpr h

/-- Only the digits of zero begin with a zero. -/
theorem head?_toDigits (hn : n ≠ 0) : (Nat.toDigits 10 n).head? ≠ some '0' := by
  induction n using Nat.strongRecOn with
  | ind n ih =>
    rw [Nat.toDigits_eq_if (by decide)]
    split
    case isTrue small =>
      have cases : ∀ d, d < 10 → d ≠ 0 → [Nat.digitChar d].head? ≠ some '0' := by decide
      exact cases n small hn
    case isFalse large =>
      have first := ih (n / 10) (by omega) (by omega)
      have full : Nat.toDigits 10 (n / 10) ≠ [] := Nat.toDigits_ne_nil
      rw [List.head?_append]
      cases hd : (Nat.toDigits 10 (n / 10)).head? with
      | none => exact absurd (List.head?_eq_none_iff.mp hd) full
      | some d =>
        rw [hd] at first
        exact first

/-! ## Reading -/

theorem takeWhile_digits (digits : ∀ c ∈ ds, c.isDigit = true)
    (ends : ∀ c ∈ rest.head?, c.isDigit = false) :
    (ds ++ rest).takeWhile Char.isDigit = ds :=
  (Text.span_of_run digits ends).1

theorem dropWhile_digits (digits : ∀ c ∈ ds, c.isDigit = true)
    (ends : ∀ c ∈ rest.head?, c.isDigit = false) :
    (ds ++ rest).dropWhile Char.isDigit = rest :=
  (Text.span_of_run digits ends).2

end Digits

/-! ## Numbers of a fixed width -/

namespace Instant

variable {width n : Nat}

theorem isDigit_padded : ∀ c ∈ padded width n, c.isDigit = true := by
  intro c hc
  rcases List.mem_append.mp hc with zero | digit
  · rw [List.eq_of_mem_replicate zero]
    decide
  · exact isDigit_toDigits c digit

/-- **Zeros in front change no value.** -/
theorem value_padded (width n : Nat) : digitsFrom 0 (padded width n) = n := by
  have zeros : ∀ k, digitsFrom 0 (List.replicate k '0') = 0 := by
    intro k
    induction k with
    | zero => rfl
    | succ k ih => exact ih
  unfold padded digitsFrom
  rw [List.foldl_append]
  refine Eq.trans ?_ (value_toDigits n)
  exact congrArg (digitsFrom · (Nat.toDigits 10 n)) (zeros _)

theorem length_padded (hw : 0 < width) (h : n < 10 ^ width) : (padded width n).length = width := by
  have short := length_toDigits hw h
  unfold padded
  rw [List.length_append, List.length_replicate]
  omega

theorem padded_ne_nil : padded width n ≠ [] := by
  unfold padded
  exact List.append_ne_nil_of_right_ne_nil _ Nat.toDigits_ne_nil

end Instant

end CodeInsight
