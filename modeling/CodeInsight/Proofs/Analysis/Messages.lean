import CodeInsight.Analysis.Pipeline
import CodeInsight.Proofs.Number.Digits

/-!
# Which finding a message belongs to

* a number at the end of a text is read off it in one way only (`append_toDigits_inj`);
* **what a message says of a length tells the finding apart from all others**: it is the length
  smell of one of the symbols, with that number of lines and the limit of the analysis
  (`Analysis.exists_span_of_saysLength`).
-/

namespace CodeInsight

section Digits

variable {m n : Nat} {xs ys : List Char} {c d : Char}

theorem takeWhile_reverse_digits (hc : c.isDigit = false) :
    (xs ++ c :: Nat.toDigits 10 n).reverse.takeWhile Char.isDigit =
      (Nat.toDigits 10 n).reverse := by
  have split : (xs ++ c :: Nat.toDigits 10 n).reverse =
      (Nat.toDigits 10 n).reverse ++ c :: xs.reverse := by
    simp
  rw [split]
  refine takeWhile_digits (fun d hd => isDigit_toDigits d (List.mem_reverse.mp hd)) ?_
  intro d hd
  cases hd
  exact hc

/-- **A number behind what is no digit** is read off the end of a text in one way only. -/
theorem append_toDigits_inj (hc : c.isDigit = false) (hd : d.isDigit = false) :
    xs ++ c :: Nat.toDigits 10 m = ys ++ d :: Nat.toDigits 10 n ↔ xs = ys ∧ c = d ∧ m = n := by
  refine ⟨fun same => ?_, by rintro ⟨rfl, rfl, rfl⟩; rfl⟩
  have digits := congrArg (fun s : List Char => s.reverse.takeWhile Char.isDigit) same
  simp only [takeWhile_reverse_digits hc, takeWhile_reverse_digits hd] at digits
  obtain rfl := toDigits_inj.mp (List.reverse_inj.mp digits)
  rw [List.append_cons, List.append_cons ys, List.append_cancel_right_eq] at same
  obtain ⟨before, last⟩ := List.append_inj' same rfl
  exact ⟨before, List.singleton_inj.mp last, rfl⟩

end Digits

namespace Analysis

/-- A finding says that something is `n` lines long. -/
def SaysLength (f : Finding) (n : Nat) : Prop :=
  ∃ (who : String) (limit : Nat), f.message = s!"{who} is {n} lines long (limit {limit})"

/-! ## 1. Messages with a limit -/

/-- The text of a message that ends with the limit. -/
def limited (x : List Char) (limit : Nat) : List Char :=
  x ++ " (limit".toList ++ ' ' :: Nat.toDigits 10 limit ++ [')']

section Messages

variable {t : Thresholds} {path : String} {content : List Char} {s : Symbol} {f : Finding}
variable {n m l limit : Nat} {who other : String} {x y : List Char}

theorem limited_inj : limited x n = limited y m ↔ x = y ∧ n = m := by
  unfold limited
  rw [List.append_cancel_right_eq, append_toDigits_inj (by decide) (by decide),
    List.append_cancel_right_eq]
  simp

theorem toList_lengthMessage (who : String) (n limit : Nat) :
    (s!"{who} is {n} lines long (limit {limit})").toList =
      limited (who.toList ++ " is".toList ++ ' ' :: Nat.toDigits 10 n ++ " lines long".toList)
        limit := by
  simp [limited, toString, Nat.toList_repr]

/-- What a message says of a length is said in one way only. -/
theorem lengthMessage_inj :
    s!"{who} is {n} lines long (limit {limit})" = s!"{other} is {m} lines long (limit {l})" ↔
      who = other ∧ n = m ∧ limit = l := by
  rw [← String.toList_inj, toList_lengthMessage, toList_lengthMessage, limited_inj,
    List.append_cancel_right_eq, append_toDigits_inj (by decide) (by decide),
    List.append_cancel_right_eq, String.toList_inj, and_assoc]
  simp only [true_and]

/-! ## 2. The other findings -/

/-- What stands before the limit ends with the word `long`, and so with no other letter. -/
theorem toList_lengthMessage_ne_limited (h : ∀ y, x ≠ y ++ ['g']) :
    (s!"{who} is {n} lines long (limit {limit})").toList ≠ limited x l := by
  intro same
  have long : " lines long".toList = " lines lon".toList ++ ['g'] := by decide
  rw [toList_lengthMessage, limited_inj, long, ← List.append_assoc] at same
  exact h _ same.1.symm

/-- What ends with a sign that is no digit does not end with a number. -/
theorem append_toDigits_ne {c : Char} (hc : c.isDigit = false) :
    x ++ [c] ≠ y ++ Nat.toDigits 10 n := by
  intro same
  have last := congrArg List.getLast? same
  rw [List.getLast?_concat, List.getLast?_append, List.getLast?_eq_some_getLast
    Nat.toDigits_ne_nil, Option.some_or] at last
  have digit := isDigit_toDigits _ (List.getLast_mem (Nat.toDigits_ne_nil (b := 10) (n := n)))
  rw [← Option.some.inj last, hc] at digit
  cases digit

theorem lengthMessage_ne_complexity (what : String) (m : Nat) :
    s!"{who} is {n} lines long (limit {limit})" ≠
      s!"{what} has high cyclomatic complexity ({m})" := by
  intro same
  have text : (s!"{what} has high cyclomatic complexity ({m})").toList =
      what.toList ++ " has high cyclomatic complexity ".toList ++ '(' :: Nat.toDigits 10 m ++
        [')'] := by
    simp [toString, Nat.toList_repr]
  have chars := congrArg String.toList same
  rw [toList_lengthMessage, text, limited, List.append_cancel_right_eq,
    append_toDigits_inj (by decide) (by decide)] at chars
  exact absurd chars.2.1 (by decide)

theorem lengthMessage_ne_parameters (what : String) (m l : Nat) :
    s!"{who} is {n} lines long (limit {limit})" ≠ s!"{what} has {m} parameters (limit {l})" := by
  intro same
  have text : (s!"{what} has {m} parameters (limit {l})").toList =
      limited (what.toList ++ " has ".toList ++ Nat.toDigits 10 m ++ " parameter".toList ++ ['s'])
        l := by
    simp [limited, toString, Nat.toList_repr]
  refine toList_lengthMessage_ne_limited (fun y ends => ?_) (same ▸ text)
  exact absurd (List.append_inj' ends rfl).2 (by decide)

theorem lengthMessage_ne_nesting (what : String) (m l : Nat) :
    s!"{who} is {n} lines long (limit {limit})" ≠ s!"{what} has nesting depth {m} (limit {l})" := by
  intro same
  have text : (s!"{what} has nesting depth {m} (limit {l})").toList =
      limited (what.toList ++ " has nesting depth ".toList ++ Nat.toDigits 10 m) l := by
    simp [limited, toString, Nat.toList_repr]
  refine toList_lengthMessage_ne_limited (fun y ends => ?_) (same ▸ text)
  exact append_toDigits_ne (by decide) ends.symm

/-! ## 3. Lengths -/

theorem lengthSmell?_eq_some_iff :
    lengthSmell? t path content s = some f ↔
      ∃ n, braceSpan content s.line = some n ∧ t.longFunctionLines < n ∧
        f = smell path s s!"{describe s} is {n} lines long (limit {t.longFunctionLines})" := by
  unfold lengthSmell?
  split
  case h_1 none => simp [none]
  case h_2 n span =>
    rw [span, Option.ite_none_right_eq_some]
    constructor
    · rintro ⟨above, same⟩
      exact ⟨n, rfl, above, (Option.some.inj same).symm⟩
    · rintro ⟨m, same, above, rfl⟩
      cases same
      exact ⟨above, rfl⟩

end Messages

/-- **A finding that says how long something is** is the length smell of a symbol, and says that
    symbol's span. -/
theorem exists_span_of_saysLength {t : Thresholds} {path content : String} {o : Outline}
    {f : Finding} {n : Nat} (hf : f ∈ (run t path content o).findings) (told : SaysLength f n) :
    ∃ s ∈ o.analyzable, braceSpan content.toList s.line = some n ∧ t.longFunctionLines < n ∧
      f = smell path s s!"{describe s} is {n} lines long (limit {t.longFunctionLines})" := by
  obtain ⟨who, limit, message⟩ := told
  rcases List.mem_append.mp hf with complex | smelly
  · obtain ⟨s, -, found⟩ := List.mem_filterMap.mp complex
    obtain ⟨-, same⟩ := Option.ite_none_right_eq_some.mp found
    cases same
    exact absurd message.symm (lengthMessage_ne_complexity _ _)
  · obtain ⟨s, hs, found⟩ := List.mem_flatMap.mp smelly
    simp only [smells, List.mem_append, Option.mem_toList] at found
    rcases found with (long | parameters) | nested
    · obtain ⟨m, span, above, rfl⟩ := lengthSmell?_eq_some_iff.mp long
      obtain ⟨-, rfl, -⟩ := lengthMessage_inj.mp message
      exact ⟨s, hs, span, above, rfl⟩
    · obtain ⟨-, same⟩ := Option.ite_none_right_eq_some.mp parameters
      cases same
      exact absurd message.symm (lengthMessage_ne_parameters _ _ _)
    · obtain ⟨-, same⟩ := Option.ite_none_right_eq_some.mp nested
      cases same
      exact absurd message.symm (lengthMessage_ne_nesting _ _ _)

end Analysis

end CodeInsight
