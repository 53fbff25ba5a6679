import CodeInsight.Analysis.Measure
import Mathlib.Data.List.Infix
import Mathlib.Order.Bounds.Basic

/-!
# What the nesting of a text measures

* the `excess` of a text is its opening braces less its closing ones;
* from a place on with `depth` braces open there, no beginning of the text leaves more open and no
  piece of it has a greater excess than `nestingFrom` says (`add_excess_le_nestingFrom`,
  `excess_le_nestingFrom`), and one of them has just that (`exists_excess_eq_nestingFrom`);
* so **the nesting of a text is the greatest excess of a piece of it** (`nestingDepth_greatest`): a
  closing brace too many is no debt to what follows it, and a text in which none is too many is
  nested as deep as its beginnings are.
-/

namespace CodeInsight.Analysis

/-- The opening braces of a text less its closing ones. -/
def excess (s : List Char) : Int := s.count '{' - s.count '}'

section Nesting

variable {depth : Nat} {c : Char} {s t : List Char}

@[simp] theorem excess_nil : excess [] = 0 := rfl

@[simp] theorem excess_open (s : List Char) : excess ('{' :: s) = excess s + 1 := by
  simp only [excess, List.count_cons_self, List.count_cons_of_ne (show '{' ≠ '}' by decide)]
  omega

@[simp] theorem excess_close (s : List Char) : excess ('}' :: s) = excess s - 1 := by
  simp only [excess, List.count_cons_self, List.count_cons_of_ne (show '}' ≠ '{' by decide)]
  omega

theorem excess_cons (opens : c ≠ '{') (closes : c ≠ '}') (s : List Char) :
    excess (c :: s) = excess s := by
  rw [excess, List.count_cons_of_ne opens, List.count_cons_of_ne closes, excess]

theorem excess_append (s t : List Char) : excess (s ++ t) = excess s + excess t := by
  simp only [excess, List.count_append]
  omega

/-- What is open at a place is no more than what is open at once from there on. -/
theorem le_nestingFrom (depth : Nat) (s : List Char) : depth ≤ nestingFrom depth s := by
  fun_induction nestingFrom depth s with
  | case1 depth => exact Nat.le_refl depth
  | case2 depth rest ih => omega
  | case3 depth rest ih => exact Nat.le_max_left _ _
  | case4 depth c rest opens closes ih => exact ih

/-- **No beginning of the text leaves more open.** -/
theorem add_excess_le_nestingFrom (depth : Nat) (h : t <+: s) :
    depth + excess t ≤ nestingFrom depth s := by
  fun_induction nestingFrom depth s generalizing t with
  | case1 depth =>
    rw [List.prefix_nil.mp h]
    simp
  | case2 depth rest ih =>
    rcases List.prefix_cons_iff.mp h with rfl | ⟨t, rfl, behind⟩
    · have := le_nestingFrom (depth + 1) rest
      rw [excess_nil]
      omega
    · have := ih behind
      rw [excess_open]
      omega
  | case3 depth rest ih =>
    rcases List.prefix_cons_iff.mp h with rfl | ⟨t, rfl, behind⟩
    · rw [excess_nil]
      omega
    · have := ih behind
      rw [excess_close]
      omega
  | case4 depth c rest opens closes ih =>
    rcases List.prefix_cons_iff.mp h with rfl | ⟨t, rfl, behind⟩
    · have := le_nestingFrom depth rest
      rw [excess_nil]
      omega
    · rw [excess_cons opens closes]
      exact ih behind

/-- What begins the text has no greater excess, even with none open before it. -/
theorem excess_le_of_prefix (depth : Nat) (h : t <+: s) : excess t ≤ nestingFrom depth s := by
  have := add_excess_le_nestingFrom depth h
  omega

/-- **No piece of the text has a greater excess.** -/
theorem excess_le_nestingFrom (h : t <:+: s) : excess t ≤ nestingFrom depth s := by
  fun_induction nestingFrom depth s with
  | case1 depth =>
    rw [List.infix_nil.mp h]
    simp
  | case2 depth rest ih =>
    rcases List.infix_cons_iff.mp h with begins | later
    · simpa only [nestingFrom] using excess_le_of_prefix depth begins
    · exact ih later
  | case3 depth rest ih =>
    rcases List.infix_cons_iff.mp h with begins | later
    · simpa only [nestingFrom] using excess_le_of_prefix depth begins
    · have := ih later
      omega
  | case4 depth c rest opens closes ih =>
    rcases List.infix_cons_iff.mp h with begins | later
    · simpa only [nestingFrom] using excess_le_of_prefix depth begins
    · exact ih later

/-- **One of them has just that**: a beginning with what was open before, or a piece. -/
theorem exists_excess_eq_nestingFrom (depth : Nat) (s : List Char) :
    (∃ t, t <+: s ∧ depth + excess t = nestingFrom depth s) ∨
      ∃ t, t <:+: s ∧ excess t = nestingFrom depth s := by
  fun_induction nestingFrom depth s with
  | case1 depth => exact .inl ⟨[], List.prefix_rfl, by simp⟩
  | case2 depth rest ih =>
    rcases ih with ⟨t, begins, same⟩ | ⟨t, within, same⟩
    · refine .inl ⟨'{' :: t, List.cons_prefix_cons.mpr ⟨rfl, begins⟩, ?_⟩
      rw [excess_open]
      omega
    · exact .inr ⟨t, List.infix_cons within, same⟩
  | case3 depth rest ih =>
    rcases Nat.le_total (nestingFrom (depth - 1) rest) depth with less | more
    · exact .inl ⟨[], List.nil_prefix, by simp [less]⟩
    rw [Nat.max_eq_right more]
    rcases ih with ⟨t, begins, same⟩ | ⟨t, within, same⟩
    · -- with none open the closing brace counts for nothing, and the piece begins behind it
      rcases Nat.eq_zero_or_pos depth with rfl | some_open
      · exact .inr ⟨t, List.infix_cons begins.isInfix, by simpa using same⟩
      · refine .inl ⟨'}' :: t, List.cons_prefix_cons.mpr ⟨rfl, begins⟩, ?_⟩
        rw [excess_close]
        omega
    · exact .inr ⟨t, List.infix_cons within, same⟩
  | case4 depth c rest opens closes ih =>
    rcases ih with ⟨t, begins, same⟩ | ⟨t, within, same⟩
    · refine .inl ⟨c :: t, List.cons_prefix_cons.mpr ⟨rfl, begins⟩, ?_⟩
      rw [excess_cons opens closes]
      exact same
    · exact .inr ⟨t, List.infix_cons within, same⟩

/-- **The nesting of a text is the greatest excess of a piece of it.** -/
theorem nestingDepth_isGreatest (s : List Char) :
    IsGreatest {k : Int | ∃ t, t <:+: s ∧ excess t = k} (nestingDepth s) := by
  constructor
  · rcases exists_excess_eq_nestingFrom 0 s with ⟨t, begins, same⟩ | reached
    · exact ⟨t, begins.isInfix, by simpa [nestingDepth] using same⟩
    · exact reached
  · rintro k ⟨t, within, rfl⟩
    exact excess_le_nestingFrom within

/-- A text is nested at least as deep as each piece of it. -/
theorem nestingDepth_le_of_isInfix (h : t <:+: s) : nestingDepth t ≤ nestingDepth s := by
  obtain ⟨piece, within, same⟩ := (nestingDepth_isGreatest t).1
  have bound := (nestingDepth_isGreatest s).2 ⟨piece, within.trans h, same⟩
  exact Int.ofNat_le.mp bound

/-- Where no closing brace is too many, no piece exceeds the beginning of the text it ends. -/
theorem nestingDepth_of_beginnings (h : ∀ t, t <+: s → t.count '}' ≤ t.count '{') :
    IsGreatest {k : Int | ∃ t, t <+: s ∧ excess t = k} (nestingDepth s) := by
  have upper : (nestingDepth s : Int) ∈ upperBounds {k : Int | ∃ t, t <+: s ∧ excess t = k} := by
    rintro k ⟨t, begins, rfl⟩
    exact (nestingDepth_isGreatest s).2 ⟨t, begins.isInfix, rfl⟩
  obtain ⟨t, ⟨front, behind, whole⟩, same⟩ := (nestingDepth_isGreatest s).1
  have begins : front ++ t <+: s := ⟨behind, whole⟩
  have atLeast : 0 ≤ excess front := by
    have := h front ((List.prefix_append front t).trans begins)
    rw [excess]
    omega
  have atMost := upper ⟨front ++ t, begins, rfl⟩
  refine ⟨⟨front ++ t, begins, ?_⟩, upper⟩
  rw [excess_append] at atMost ⊢
  omega

/-- **The nesting of a text is the greatest excess of a piece of it**, which may be empty. So what
    is put in front of a text or behind it never lessens its nesting; and where no beginning closes
    more braces than it opens, the nesting is the greatest excess of a beginning. -/
theorem nestingDepth_greatest (s : List Char) :
    IsGreatest {k : Int | ∃ t, t <:+: s ∧ excess t = k} (nestingDepth s) ∧
      (∀ front behind, nestingDepth s ≤ nestingDepth (front ++ s ++ behind)) ∧
      ((∀ t, t <+: s → t.count '}' ≤ t.count '{') →
        IsGreatest {k : Int | ∃ t, t <+: s ∧ excess t = k} (nestingDepth s)) :=
  ⟨nestingDepth_isGreatest s, fun front behind => nestingDepth_le_of_isInfix ⟨front, behind, rfl⟩,
    nestingDepth_of_beginnings⟩

/-- Two bodies in a body, and a text with a brace too many before them. -/
theorem nestingDepth_greatest_twoBodies :
    let s := "\x7b a \x7b\x7d \x7b b \x7b\x7d \x7d \x7d".toList
    (∀ t, t <+: s → t.count '}' ≤ t.count '{') ∧
      IsGreatest {k : Int | ∃ t, t <+: s ∧ excess t = k} 3 ∧
      3 ≤ nestingDepth ("\x7d ".toList ++ s ++ " \x7b".toList) := by
  intro s
  have depth : nestingDepth s = 3 := by decide
  have covered : ∀ t, t <+: s → t.count '}' ≤ t.count '{' := by
    intro t begins
    have all : ∀ t ∈ s.inits, t.count '}' ≤ t.count '{' := by decide
    exact all t (List.mem_inits _ _ |>.mpr begins)
  obtain ⟨-, longer, beginnings⟩ := nestingDepth_greatest s
  refine ⟨covered, ?_, ?_⟩
  · have greatest := beginnings covered
    rw [depth] at greatest
    exact greatest
  · have deeper := longer "\x7d ".toList " \x7b".toList
    rw [depth] at deeper
    exact deeper

end Nesting

end CodeInsight.Analysis
