import CodeInsight.Proofs.Analysis.Messages
import CodeInsight.Proofs.Source.Signatures

/-!
# What the length of a symbol measures

* `BracesBalance` says of a text that it opens a brace and, from the first one on, closes as many;
  **the span of a symbol is the least number of lines, from its own on, whose braces balance**
  (`braceSpan_eq_some_iff`), wherever those braces belong;
* where they balance, a body ends (`exists_endsBody`): so in a language with braces **the span is
  never shorter than the signature, and as long exactly if the braces balance at the end of the line
  in which the signature ends** (`SpansLines.signature`);
* **a finding of a length** is one of a function or a class, with that span
  (`Outline.measures_length`). A declaration without a body is given the braces below it
  (`Outline.measures_class_below`).
-/

namespace CodeInsight.Analysis

open CodeInsight.Text CodeInsight.Source

/-! ## 1. Braces that balance -/

/-- Whether a text opens a brace and, from the first one on, closes at least as many as it opens. -/
def BracesBalance (s : List Char) : Prop :=
  ∃ r body, s = r ++ '{' :: body ∧ '{' ∉ r ∧ body.count '{' < body.count '}'

def isBrace (c : Char) : Bool := c == '{' || c == '}'

/-- The braces of a text. -/
def braces (s : List Char) : List Char := s.filter isBrace

section Balance

variable {s t r : List Char} {b : Balance} {depth : Nat}

theorem foldl_braces (b : Balance) (s : List Char) :
    s.foldl Balance.next b = (braces s).foldl Balance.next b := by
  induction s generalizing b with
  | nil => rfl
  | cons c s ih =>
    by_cases brace : isBrace c = true
    · rw [braces, List.filter_cons_of_pos brace]
      exact ih _
    · have other : c ≠ '{' ∧ c ≠ '}' := by simpa [isBrace] using brace
      have still : b.next c = b := by
        rw [Balance.next, if_neg other.1, if_neg other.2]
      rw [braces, List.filter_cons_of_neg brace, List.foldl_cons, still]
      exact ih b

/-- Once a brace was opened each further one counts. -/
theorem foldl_some (k : Int) (s : List Char) :
    s.foldl Balance.next (some k) = some (k + s.count '{' - s.count '}') := by
  induction s generalizing k with
  | nil => simp
  | cons c s ih =>
    rw [List.foldl_cons, Balance.next]
    split
    case isTrue same =>
      subst same
      rw [Option.getD_some, ih, List.count_cons_self, List.count_cons_of_ne (by decide)]
      congr 1
      omega
    case isFalse opens =>
      rw [List.count_cons_of_ne opens]
      split
      case isTrue same =>
        subst same
        rw [Option.map_some, ih, List.count_cons_self]
        congr 1
        omega
      case isFalse closes => rw [List.count_cons_of_ne closes, ih]

/-- Before a brace is opened nothing counts. -/
theorem foldl_none (h : '{' ∉ s) : s.foldl Balance.next none = none := by
  induction s with
  | nil => rfl
  | cons c s ih =>
    obtain ⟨opens, rest⟩ := not_or.mp (List.mem_cons.not.mp h)
    have still : Balance.next none c = none := by
      rw [Balance.next, if_neg (Ne.symm opens)]
      split <;> rfl
    rw [List.foldl_cons, still, ih rest]

theorem foldl_open (body : List Char) (h : '{' ∉ r) :
    (r ++ '{' :: body).foldl Balance.next none =
      some ((1 : Int) + body.count '{' - body.count '}') := by
  rw [List.foldl_append, foldl_none h, List.foldl_cons]
  exact foldl_some 1 body

theorem closed_some (k : Int) : Balance.closed (some k) = true ↔ k ≤ 0 := decide_eq_true_iff

/-- **The balance is closed** exactly if the braces balance. -/
theorem closed_iff : Balance.closed (s.foldl Balance.next none) = true ↔ BracesBalance s := by
  constructor
  · intro closed
    by_cases opens : '{' ∈ s
    · obtain ⟨r, body, rfl, none⟩ := List.eq_append_cons_of_mem opens
      rw [foldl_open body none, closed_some] at closed
      exact ⟨r, body, rfl, none, by omega⟩
    · rw [foldl_none opens] at closed
      cases closed
  · rintro ⟨r, body, rfl, none, more⟩
    rw [foldl_open body none, closed_some]
    omega

/-- Only the braces of a text decide whether they balance. -/
theorem bracesBalance_congr (h : braces s = braces t) : BracesBalance s ↔ BracesBalance t := by
  rw [← closed_iff, ← closed_iff, foldl_braces, h, ← foldl_braces]

/-- Behind the brace that closes a body the braces balance as long as no more are opened than are
    closed. -/
theorem bracesBalance_append_of_endsBody (h : EndsBody s) :
    BracesBalance (s ++ t) ↔ t.count '{' ≤ t.count '}' := by
  obtain ⟨r, body, rfl, none, same⟩ := h
  rw [← closed_iff, List.append_assoc, List.cons_append, foldl_open _ none,
    closed_some]
  rw [List.count_append, List.count_append, List.count_append, List.count_append,
    List.count_singleton_self]
  have zero : ['}'].count '{' = 0 := by decide
  omega

theorem exists_closes (some_open : 0 < depth) (h : s.count '{' + depth ≤ s.count '}') :
    ∃ q, q <+: s ∧ Closes depth q := by
  induction s generalizing depth with
  | nil =>
    simp only [List.count_nil] at h
    omega
  | cons c s ih =>
    by_cases opens : c = '{'
    · subst opens
      rw [List.count_cons_self, List.count_cons_of_ne (by decide)] at h
      obtain ⟨q, hq, closes⟩ := ih (show 0 < depth + 1 by omega) (by omega)
      exact ⟨_, List.cons_prefix_cons.mpr ⟨rfl, hq⟩, closes_open.mpr closes⟩
    · rw [List.count_cons_of_ne opens] at h
      by_cases last : c = '}'
      · subst last
        rw [List.count_cons_self] at h
        by_cases more : 1 < depth
        · obtain ⟨q, hq, closes⟩ := ih (show 0 < depth - 1 by omega) (by omega)
          exact ⟨_, List.cons_prefix_cons.mpr ⟨rfl, hq⟩, (closes_close more).mpr closes⟩
        · exact ⟨['}'], by simp, [], rfl, by simp; omega⟩
      · rw [List.count_cons_of_ne last] at h
        obtain ⟨q, hq, closes⟩ := ih some_open h
        exact ⟨_, List.cons_prefix_cons.mpr ⟨rfl, hq⟩, (closes_cons opens last).mpr closes⟩

/-- **Where the braces balance a body has ended.** -/
theorem exists_endsBody (h : BracesBalance s) : ∃ q, q <+: s ∧ EndsBody q := by
  obtain ⟨r, body, rfl, none, more⟩ := h
  obtain ⟨q, hq, inside, rfl, same⟩ :=
    exists_closes Nat.one_pos (show body.count '{' + 1 ≤ body.count '}' from more)
  refine ⟨r ++ '{' :: (inside ++ ['}']), ?_, r, inside, rfl, none, by omega⟩
  exact (List.prefix_append_right_inj r).mpr (List.cons_prefix_cons.mpr ⟨rfl, hq⟩)

end Balance

/-! ## 2. Spans -/

/-- `SpansLines ls n`: the first `n` of the lines are the fewest whose braces balance. -/
structure SpansLines (ls : List (List Char)) (n : Nat) : Prop where
  within : n ≤ ls.length
  balanced : BracesBalance (ls.take n).flatten
  least : ∀ m, m < n → ¬ BracesBalance (ls.take m).flatten

section Spans

variable {b : Balance} {ls : List (List Char)} {n : Nat}

theorem closingLine?_eq_some_iff :
    closingLine? b ls = some n ↔ 0 < n ∧ n ≤ ls.length ∧
      Balance.closed ((ls.take n).flatten.foldl Balance.next b) = true ∧
      ∀ m, 0 < m → m < n →
        ¬ Balance.closed ((ls.take m).flatten.foldl Balance.next b) = true := by
  induction ls generalizing b n with
  | nil =>
    rw [closingLine?, List.length_nil]
    constructor
    · intro h
      cases h
    · intro ⟨pos, within, _⟩
      omega
  | cons l ls ih =>
    have further (m : Nat) : ((l :: ls).take (m + 1)).flatten.foldl Balance.next b =
        (ls.take m).flatten.foldl Balance.next (l.foldl Balance.next b) := by
      rw [List.take_succ_cons, List.flatten_cons, List.foldl_append]
    rw [closingLine?]
    split
    case isTrue first =>
      constructor
      · intro h
        cases h
        refine ⟨by decide, by simp, (further 0).symm ▸ first, fun m pos below => ?_⟩
        omega
      · intro ⟨pos, _, _, least⟩
        by_cases one : 1 < n
        · exact absurd ((further 0).symm ▸ first) (least 1 (by decide) one)
        · have : n = 1 := by omega
          rw [this]
    case isFalse notFirst =>
      cases n with
      | zero => simp
      | succ n =>
        have shift : ((closingLine? (l.foldl Balance.next b) ls).map (· + 1) = some (n + 1)) ↔
            closingLine? (l.foldl Balance.next b) ls = some n := by
          simp
        rw [shift, ih, further, List.length_cons]
        constructor
        · intro ⟨pos, within, closed, least⟩
          refine ⟨by omega, by omega, closed, fun m _ below => ?_⟩
          cases m with
          | zero => omega
          | succ m =>
            rw [further]
            by_cases none : m = 0
            · subst none
              exact notFirst
            · exact least m (by omega) (by omega)
        · intro ⟨_, within, closed, least⟩
          refine ⟨Nat.pos_of_ne_zero ?_, by omega, closed, fun m pos below => ?_⟩
          · rintro rfl
            exact notFirst closed
          · have := least (m + 1) (by omega) (by omega)
            rw [further] at this
            exact this

/-- **A span** is the least number of lines whose braces balance. -/
theorem braceSpan_eq_some_iff {s : List Char} {first : Nat} :
    braceSpan s first = some n ↔ SpansLines ((lines s).drop (first - 1)) n := by
  have nothing : ¬ BracesBalance [] := by
    rintro ⟨r, body, same, -⟩
    simp at same
  rw [braceSpan, closingLine?_eq_some_iff]
  simp only [closed_iff]
  constructor
  · intro ⟨_, within, balanced, least⟩
    refine ⟨within, balanced, fun m below => ?_⟩
    by_cases none : m = 0
    · subst none
      exact nothing
    · exact least m (by omega) below
  · intro h
    refine ⟨Nat.pos_of_ne_zero ?_, h.within, h.balanced, fun m _ below => h.least m below⟩
    rintro rfl
    exact nothing h.balanced

end Spans

/-! ## 3. The span and the signature -/

section Signature

variable {place : Cursor} {s extent after : List Char} {n : Nat}

theorem exists_last_of_endsCounted (h : EndsCounted s) :
    ∃ t c, s = t ++ [c] ∧ c ≠ '\n' := by
  rcases h with ⟨r, rfl, -⟩ | ⟨r, body, rfl, -⟩
  · exact ⟨r, ';', rfl, by decide⟩
  · exact ⟨r ++ '{' :: body, '}', by simp, by decide⟩

theorem braces_of_allBlank (h : allBlank s = true) : braces s = [] := by
  refine List.filter_eq_nil_iff.mpr fun c there brace => ?_
  have blank := List.all_eq_true.mp h c there
  rcases Bool.or_eq_true_iff.mp brace with same | same
  all_goals
    rw [eq_of_beq same] at blank
    cases blank

/-- The first lines from a place's line on hold the braces of what follows the place in them. -/
theorem braces_take_lines (place : Cursor) (blank : allBlank place.lineBefore = true) (m : Nat) :
    braces (((lines place.text).drop (place.line - 1)).take m).flatten =
      braces (joinLines ((pieces '\n' place.after).take m)) := by
  obtain ⟨first, more, cut⟩ := exists_pieces '\n' place.after
  have none : braces place.lineBefore.reverse = [] := by
    refine braces_of_allBlank ?_
    rwa [allBlank, List.all_reverse]
  have alone : pieces '\n' place.lineBefore.reverse = [] ++ [place.lineBefore.reverse] :=
    pieces_of_not_mem (List.mem_reverse.not.mpr (not_mem_lineBefore place))
  have whole : pieces '\n' (place.lineBefore.reverse ++ place.after) =
      (place.lineBefore.reverse ++ first) :: more :=
    pieces_append alone cut
  rw [lines_drop, braces, filter_take_lines rfl, whole, braces, filter_joinWith rfl, cut]
  cases m with
  | zero => rfl
  | succ m =>
    rw [List.take_succ_cons, List.take_succ_cons, List.flatten_cons, List.flatten_cons,
      List.append_assoc, List.filter_append]
    exact congrArg (· ++ _) none

/-- A beginning of a text whose braces balance covers the declaration that the text begins with: its
    body ends in there, or the declaration has ended before. -/
theorem isPrefix_of_bracesBalance {r : List Char} (shortest : IsShortest EndsCounted s extent)
    (begins : r <+: s) (balanced : BracesBalance r) : extent <+: r ∧ EndsCounted extent := by
  obtain ⟨q, hq, body⟩ := exists_endsBody balanced
  rcases List.prefix_or_prefix_of_prefix (hq.trans begins) shortest.beginning with within | beyond
  · have whole := shortest.least q within (.inr body)
    exact ⟨whole ▸ hq, whole ▸ .inr body⟩
  · refine ⟨beyond.trans hq, ?_⟩
    rcases shortest.ends_or_all with ends | all
    · exact ends
    · have within := hq.trans begins
      rw [← all] at within
      exact shortest.least q within (.inr body) ▸ .inr body

/-- **The span and the signature** of a declaration with braces: the span is never shorter, since no
    body ends before the signature does, and it is as long exactly if the braces balance at the end
    of the signature's last line. -/
theorem SpansLines.signature (h : SpansLines ((lines place.text).drop (place.line - 1)) n)
    (blank : allBlank place.lineBefore = true)
    (shortest : IsShortest EndsCounted place.after extent)
    (split : place.after = extent ++ after) :
    (lines extent).length ≤ n ∧
      (n = (lines extent).length ↔ BracesBalance (extent ++ after.takeWhile (· != '\n'))) := by
  have same (m : Nat) :
      BracesBalance (((lines place.text).drop (place.line - 1)).take m).flatten ↔
        BracesBalance (joinLines ((pieces '\n' place.after).take m)) :=
    bracesBalance_congr (braces_take_lines place blank m)
  have covers {m : Nat} (balanced : BracesBalance (joinLines ((pieces '\n' place.after).take m))) :
      extent <+: joinLines ((pieces '\n' place.after).take m) ∧ EndsCounted extent :=
    isPrefix_of_bracesBalance shortest (joinWith_take_isPrefix '\n' place.after m) balanced
  obtain ⟨t, c, last, plain⟩ := exists_last_of_endsCounted (covers ((same n).mp h.balanced)).2
  have length : (lines extent).length = t.count '\n' + 1 := by
    rw [last, length_lines_append t plain]
  have follows : place.after = t ++ c :: after := by
    rw [split, last]
    simp
  have notBefore {m : Nat}
      (balanced : BracesBalance (joinLines ((pieces '\n' place.after).take m))) :
      t.count '\n' < m := by
    have reached := (covers balanced).1
    rw [last, follows, prefix_joinWith_iff plain (List.take_prefix _ _)] at reached
    exact Nat.lt_of_lt_of_le reached (List.length_take_le _ _)
  have atEnd : joinLines ((pieces '\n' place.after).take (t.count '\n' + 1)) =
      extent ++ after.takeWhile (· != '\n') := by
    rw [joinLines, follows, joinWith_take_pieces t after plain, last]
    simp
  rw [length]
  refine ⟨notBefore ((same n).mp h.balanced), fun equal => ?_, fun balanced => ?_⟩
  · rw [← atEnd, ← equal]
    exact (same n).mp h.balanced
  · rw [← atEnd] at balanced
    have upper : ¬ t.count '\n' + 1 < n := fun below => h.least _ below ((same _).mpr balanced)
    have lower := notBefore ((same n).mp h.balanced)
    omega

end Signature

end CodeInsight.Analysis

namespace CodeInsight

open Text Source Analysis

/-- **What a finding of a length measures.** It is the finding of a function or a class of the file,
    above the limit, and the lines are the fewest, from the symbol's own on, whose braces balance.
    In a language with braces they are at least those of the signature, and just these exactly if
    the braces balance at the end of its last line; behind a body that is closed, as long as no more
    braces are opened there than are closed. -/
theorem Outline.measures_length {path content : String} {o : Outline} {t : Thresholds} {f : Finding}
    {n : Nat} (h : Outline.ofSource path content = .ok o)
    (hf : f ∈ (Analysis.run t path content o).findings) (told : SaysLength f n) :
    ∃ s ∈ o.analyzable,
      f = smell path s s!"{describe s} is {n} lines long (limit {t.longFunctionLines})" ∧
      t.longFunctionLines < n ∧
      SpansLines ((lines content.toList).drop (s.line - 1)) n ∧
      ∃ language, o.language = some language ∧ (language.usesBraces = true →
        ∃ (place : Cursor) (after : List Char), place.text = content.toList ∧
          place.line = s.line ∧ place.column = s.column ∧
          place.after = s.signatureText.toList ++ after ∧
          (lines s.signatureText.toList).length ≤ n ∧
          (n = (lines s.signatureText.toList).length ↔
            BracesBalance (s.signatureText.toList ++ after.takeWhile (· != '\n'))) ∧
          (EndsBody s.signatureText.toList → (n = (lines s.signatureText.toList).length ↔
            (after.takeWhile (· != '\n')).count '{' ≤
              (after.takeWhile (· != '\n')).count '}'))) := by
  obtain ⟨s, hs, span, above, same⟩ := exists_span_of_saysLength hf told
  rw [braceSpan_eq_some_iff] at span
  obtain ⟨language, known, symbols⟩ := Outline.symbols_of_ofSource h
  have declared : s ∈ symbolsIn language content.toList := by
    rw [← symbols]
    exact (List.mem_filter.mp hs).1
  obtain ⟨head, rest, declared⟩ := exists_declared declared
  obtain ⟨place, text, -, blank, line, column, signature⟩ := declared.exists_place
  refine ⟨s, hs, same, above, span, language, known, fun isBraced => ?_⟩
  rw [extentAt, if_pos isBraced] at signature
  have shortest := bracedExtent_isShortest_counted place.after
  rw [← signature] at shortest
  obtain ⟨after, split⟩ := shortest.beginning
  rw [← text, line] at span
  obtain ⟨least, equal⟩ := span.signature blank shortest split.symm
  exact ⟨place, after, text, line.symm, column.symm, split.symm, least, equal,
    fun body => equal.trans (bracesBalance_append_of_endsBody body)⟩

/-- A function of two lines, with a limit of one. -/
theorem Outline.measures_length_body :
    let s : Symbol := ⟨.function, "f", 1, 0, some "function f() \x7b\n\x7d", false⟩
    let o : Outline := ⟨"a.ts", some .typeScript, [s], []⟩
    let t : Thresholds := { longFunctionLines := 1 }
    let f : Finding := smell "a.ts" s "Function 'f' is 2 lines long (limit 1)"
    Outline.ofSource "a.ts" "function f() \x7b\n\x7d\n" = .ok o ∧
      f ∈ (Analysis.run t "a.ts" "function f() \x7b\n\x7d\n" o).findings ∧ SaysLength f 2 ∧
      SpansLines (lines "function f() \x7b\n\x7d\n".toList) 2 ∧
      (lines s.signatureText.toList).length ≤ 2 := by
  intro s o t f
  have parsed : Outline.ofSource "a.ts" "function f() \x7b\n\x7d\n" = .ok o := by
    decide +kernel
  have found : (Analysis.run t "a.ts" "function f() \x7b\n\x7d\n" o).findings = [f] := by
    decide +kernel
  have there : f ∈ (Analysis.run t "a.ts" "function f() \x7b\n\x7d\n" o).findings := by
    rw [found]
    exact List.mem_cons_self
  have told : SaysLength f 2 := ⟨"Function 'f'", 1, by decide +kernel⟩
  obtain ⟨s', hs', -, -, span, language, known, measure⟩ :=
    Outline.measures_length parsed there told
  obtain rfl : s' = s := List.mem_singleton.mp hs'
  cases known
  obtain ⟨_, _, _, _, _, _, least, _⟩ := measure rfl
  exact ⟨parsed, there, told, span, least⟩

/-- **A declaration without a body is given the braces below it**: its signature is one line, and it
    is found to be as long as the class that follows reaches. -/
theorem Outline.measures_class_below :
    let s : Symbol := ⟨.function, "f", 1, 0, some "function f(): void;", false⟩
    let a : Symbol := ⟨.classType, "A", 2, 0, some "class A \x7b\n\x7d", false⟩
    let o : Outline := ⟨"a.ts", some .typeScript, [s, a], []⟩
    let f : Finding := smell "a.ts" s "Function 'f' is 3 lines long (limit 2)"
    Outline.ofSource "a.ts" "function f(): void;\nclass A \x7b\n\x7d\n" = .ok o ∧
      f ∈ (Analysis.run { longFunctionLines := 2 } "a.ts"
        "function f(): void;\nclass A \x7b\n\x7d\n" o).findings ∧
      SaysLength f 3 ∧ (lines s.signatureText.toList).length = 1 := by
  intro s a o f
  have sorted : [s, a].mergeSort Precedes = [s, a] := by simp [List.mergeSort, Precedes, s, a]
  have parsed : Outline.ofSource "a.ts" "function f(): void;\nclass A \x7b\n\x7d\n" = .ok o := by
    rw [show o = ⟨"a.ts", some .typeScript, [s, a].mergeSort Precedes, []⟩ by rw [sorted]]
    apply Outline.ofSource_of_found <;> decide +kernel
  have found : (Analysis.run { longFunctionLines := 2 } "a.ts"
      "function f(): void;\nclass A \x7b\n\x7d\n" o).findings = [f] := by
    decide +kernel
  rw [found]
  exact ⟨parsed, List.mem_cons_self, ⟨"Function 'f'", 2, by decide +kernel⟩, by decide⟩

end CodeInsight
