import CodeInsight.Analysis.Measure
import CodeInsight.Proofs.Source.Signatures

/-!
# Which parameters are counted

* the parameters counted are those of the first parenthesised list of a text
  (`parameterText?_balanced`), so what stands before it can be left out (`parameterText?_drop`);
* **of a function the count is that of its own parameters where no parenthesis is opened between its
  place and its name**, as is always so in a script and in Python; where one is, what is counted is
  the list it opens (`Outline.counts_parameters`, `Outline.counts_visibility`).
-/

namespace CodeInsight

namespace Analysis

open CodeInsight.Text

section Parameters

variable {depth : Nat} {s t front inner : List Char}

/-- Whether all parentheses opened in a text are closed in it, and none besides. -/
def Balanced (s : List Char) : Prop :=
  s.count ')' = s.count '(' ∧ ∀ r, r <+: s → r.count ')' ≤ r.count '('

/-- What leaves a parenthesis open is read over. -/
theorem insideParentheses_append
    (open_ : ∀ r, r <+: s → r.count ')' < r.count '(' + depth) :
    insideParentheses depth (s ++ t) =
      s ++ insideParentheses (depth + s.count '(' - s.count ')') t := by
  induction s generalizing depth with
  | nil => simp
  | cons c s ih =>
    have further {n : Nat} (same : ∀ r : List Char,
        (c :: r).count ')' < (c :: r).count '(' + depth → r.count ')' < r.count '(' + n) :
        ∀ r, r <+: s → r.count ')' < r.count '(' + n :=
      fun r hr => same r (open_ (c :: r) (List.cons_prefix_cons.mpr ⟨rfl, hr⟩))
    rw [List.cons_append, insideParentheses]
    split
    case isTrue same =>
      subst same
      simp only [List.count_cons_self, ne_eq, Char.reduceEq, not_false_eq_true,
        List.count_cons_of_ne] at further ⊢
      rw [ih (further fun r h => by omega), List.cons_append]
      congr 3
      omega
    case isFalse opens =>
      split
      case isTrue same =>
        subst same
        have many := open_ [')'] (by simp)
        simp only [List.count_cons_self, ne_eq, Char.reduceEq, not_false_eq_true,
          List.count_cons_of_ne, List.count_nil] at further many ⊢
        rw [if_neg (by omega), ih (further fun r h => by omega), List.cons_append]
        congr 3
        omega
      case isFalse closes =>
        simp only [List.count_cons_of_ne opens, List.count_cons_of_ne closes] at further ⊢
        rw [ih (further fun r h => h), List.cons_append]

/-- What stands before the first parenthesis does not matter. -/
theorem parameterText?_append (free : '(' ∉ front) (t : List Char) :
    parameterText? (front ++ t) = parameterText? t := by
  have skipped : (front ++ t).dropWhile (· != '(') = t.dropWhile (· != '(') := by
    refine List.dropWhile_append_of_pos fun c there => ?_
    have apart : c ≠ '(' := fun same => free (same ▸ there)
    simpa using apart
  rw [parameterText?, parameterText?, skipped]

theorem parameterText?_of_not_mem (free : '(' ∉ s) : parameterText? s = none := by
  have nothing := parameterText?_append free []
  rw [List.append_nil] at nothing
  exact nothing

/-- The list is read from behind the first parenthesis on. -/
theorem parameterText?_open (free : '(' ∉ front) (t : List Char) :
    parameterText? (front ++ '(' :: t) = some (insideParentheses 1 t) := by
  rw [parameterText?_append free]
  simp [parameterText?]

/-- **The first parenthesised list** of a text is what is counted. -/
theorem parameterText?_balanced (free : '(' ∉ front) (balanced : Balanced inner)
    (behind : List Char) :
    parameterText? (front ++ '(' :: (inner ++ ')' :: behind)) = some inner := by
  have whole : insideParentheses 1 (inner ++ ')' :: behind) = inner := by
    rw [insideParentheses_append fun r hr => Nat.lt_succ_of_le (balanced.2 r hr), balanced.1]
    simp [insideParentheses]
  rw [parameterText?_open free, whole]

/-- A beginning of a text without a parenthesis in it can be left out. -/
theorem parameterText?_drop (free : '(' ∉ front) (h : s <+: front ++ t) :
    parameterText? (s.drop front.length) = parameterText? s := by
  rcases List.prefix_or_prefix_of_prefix h (List.prefix_append front t) with short | ⟨rest, rfl⟩
  · rw [List.drop_eq_nil_of_le short.length_le,
      parameterText?_of_not_mem fun there => free (short.subset there)]
    rfl
  · rw [List.drop_left, parameterText?_append free]

theorem parameterCount_of_text (h : parameterText? s = some inner) :
    parameterCount s = (pieces ',' inner).countP fun piece => !allBlank piece := by
  rw [parameterCount, h]

end Parameters

end Analysis

open Source Text Analysis

/-- **Whose parameters are counted.** A function's signature is a beginning of what was read up to
    its name, the name and what follows. Where a parenthesis follows the name and none was opened
    before it, the count is that of the signature from the name on; and none ever is in a script or
    in Python. In any case the first list that is opened and closed in the signature is the one
    whose segments are counted. -/
theorem Outline.counts_parameters {path content : String} {o : Outline} {s : Symbol}
    (h : Outline.ofSource path content = .ok o) (hs : s ∈ o.symbols)
    (isFunction : s.kind = .function) :
    ∃ language, o.language = some language ∧
      (∃ head rest, Declared language content.toList s head rest) ∧
      ∀ head gap after, Declared language content.toList s head (gap ++ '(' :: after) →
        allBlank gap = true →
        s.signatureText.toList <+: head ++ s.name.toList ++ (gap ++ '(' :: after) ∧
        ('(' ∉ head → parameterCount s.signatureText.toList =
          parameterCount (s.signatureText.toList.drop head.length)) ∧
        (language = .typeScript ∨ language = .python → '(' ∉ head) ∧
        ∀ front inner, front ++ '(' :: inner ++ [')'] <+: s.signatureText.toList →
          '(' ∉ front → Balanced inner → parameterCount s.signatureText.toList =
            (pieces ',' inner).countP fun piece => !allBlank piece := by
  obtain ⟨language, known, symbols⟩ := Outline.symbols_of_ofSource h
  rw [symbols] at hs
  refine ⟨language, known, exists_declared hs, fun head gap after declared blank => ?_⟩
  obtain ⟨place, -, follows, -, -, -, signature⟩ := declared.exists_place
  have begins : s.signatureText.toList <+: head ++ s.name.toList ++ (gap ++ '(' :: after) := by
    rw [signature, ← follows]
    exact extentAt_isPrefix language place
  refine ⟨begins, fun free => ?_, fun plain => ?_, fun front inner covered free balanced => ?_⟩
  · rw [List.append_assoc] at begins
    rw [parameterCount, parameterCount, parameterText?_drop free begins]
  · exact declared.paren_not_mem isFunction plain blank rfl
  · obtain ⟨more, whole⟩ := covered
    refine parameterCount_of_text ?_
    rw [← whole]
    simpa using parameterText?_balanced free balanced more

/-- The parameters of an exported function. -/
theorem Outline.counts_parameters_exported :
    let s : Symbol := ⟨.function, "f", 1, 0, some "export function f(a, b) \x7b\x7d", true⟩
    Outline.ofSource "a.ts" "export function f(a, b) \x7b\x7d\n" =
        .ok ⟨"a.ts", some .typeScript, [s], []⟩ ∧
      parameterCount s.signatureText.toList = parameterCount "f(a, b) \x7b\x7d".toList := by
  intro s
  have parsed : Outline.ofSource "a.ts" "export function f(a, b) \x7b\x7d\n" =
      .ok ⟨"a.ts", some .typeScript, [s], []⟩ := by
    decide +kernel
  obtain ⟨language, known, -, counts⟩ :=
    Outline.counts_parameters parsed List.mem_cons_self (show s.kind = .function from rfl)
  cases known
  have declared : Declared .typeScript "export function f(a, b) \x7b\x7d\n".toList s
      "export function ".toList ([] ++ '(' :: "a, b) \x7b\x7d\n".toList) := by
    decide +kernel
  obtain ⟨-, own, plain, -⟩ := counts _ _ _ declared rfl
  have same := own (plain (.inl rfl))
  have cut : s.signatureText.toList.drop "export function ".toList.length =
      "f(a, b) \x7b\x7d".toList := by
    decide
  rw [cut] at same
  exact ⟨parsed, same⟩

/-- **A visibility is counted for the parameters**: the function has two, and one segment stands
    between the parentheses before its name. -/
theorem Outline.counts_visibility :
    let s : Symbol := ⟨.function, "f", 1, 0, some "pub(crate) fn f(a: u8, b: u8) \x7b\x7d", true⟩
    Outline.ofSource "a.rs" "pub(crate) fn f(a: u8, b: u8) \x7b\x7d\n" =
        .ok ⟨"a.rs", some .rust, [s], []⟩ ∧
      Declared .rust "pub(crate) fn f(a: u8, b: u8) \x7b\x7d\n".toList s "pub(crate) fn ".toList
        ('(' :: "a: u8, b: u8) \x7b\x7d\n".toList) ∧
      parameterCount s.signatureText.toList = 1 ∧
      parameterCount (s.signatureText.toList.drop "pub(crate) fn ".toList.length) = 2 := by
  intro s
  have parsed : Outline.ofSource "a.rs" "pub(crate) fn f(a: u8, b: u8) \x7b\x7d\n" =
      .ok ⟨"a.rs", some .rust, [s], []⟩ := by
    decide +kernel
  exact ⟨parsed, by decide +kernel, by decide, by decide⟩

end CodeInsight
