import CodeInsight.Proofs.Analysis.Parameters
import CodeInsight.Proofs.Source.Blocks
import Mathlib.Data.List.Infix

/-!
# Parameter lists as they are written

* a parenthesis is never closed by what stands behind it exactly if no beginning of that closes more
  than it opens (`unmatched_iff`), and then all of it is the list (`parameterText?_unmatched`);
* segments without a comma, joined by commas, are what the list is cut into, so **the segments that
  are not blank are what is counted** (`countP_pieces_joinWith`, `parameterCount_written`);
* the list can be looked for in bytes (`parameterCount?`): the parentheses open are counted from the
  first one on, and the text is cut behind that one and before the one that closes it. What is found
  so is the list (`closing?_list`), and **no parenthesis is closed that is not open and no cut is
  made but between characters** (`parameterCount?_eq`).
-/

namespace CodeInsight

open Text

/-- Nothing is left of a text between its blanks exactly if it is blank throughout. -/
theorem Text.trim_eq_nil_iff (s : List Char) : trim s = [] ↔ allBlank s = true := by
  rw [← trimStart_eq_nil_iff, trim, List.reverse_eq_nil_iff, List.dropWhile_eq_nil_iff]
  constructor
  · intro blank
    by_contra some
    have first := head?_dropWhile isBlank s _ (List.head?_eq_some_head some)
    rw [blank _ (List.mem_reverse.mpr (List.head_mem some))] at first
    cases first
  · intro none c there
    rw [none] at there
    cases there

namespace Analysis

/-! ## 1. Lists that are closed and lists that are not -/

/-- Whether no closing parenthesis of a text belongs to one that was opened before the text. -/
def Unmatched (s : List Char) : Prop := ∀ inner, inner ++ [')'] <+: s → ¬ Balanced inner

section Lists

variable {s front : List Char} {segments : List (List Char)}

/-- **No parenthesis is matched** exactly if no beginning closes more than it opens. -/
theorem unmatched_iff : Unmatched s ↔ ∀ r, r <+: s → r.count ')' ≤ r.count '(' := by
  constructor
  · intro unmatched
    induction s using List.reverseRecOn with
    | nil =>
      intro r begins
      rw [List.prefix_nil.mp begins]
      exact Nat.le_refl 0
    | append_singleton s c ih =>
      have covered := ih fun inner closed =>
        unmatched inner (closed.trans (List.prefix_append s [c]))
      intro r begins
      rcases List.prefix_concat_iff.mp begins with rfl | earlier
      · rw [List.count_append, List.count_append]
        have most := covered s List.prefix_rfl
        by_cases closes : c = ')'
        · -- the first parenthesis too many would match
          subst closes
          have open_ : s.count ')' ≠ s.count '(' := fun same =>
            unmatched s List.prefix_rfl ⟨same, covered⟩
          rw [List.count_singleton_self]
          omega
        · have none : [c].count ')' = 0 := List.count_eq_zero.mpr (by simpa using Ne.symm closes)
          omega
      · exact covered r earlier
  · intro covered inner closed balanced
    have most := covered _ closed
    have same := balanced.1
    have none : [')'].count '(' = 0 := by decide
    rw [List.count_append, List.count_append, List.count_singleton_self] at most
    omega

instance : DecidablePred Balanced := fun s =>
  decidable_of_iff (s.count ')' = s.count '(' ∧ ∀ r ∈ s.inits, r.count ')' ≤ r.count '(')
    (by simp only [Balanced, List.mem_inits])

instance : DecidablePred Unmatched := fun s =>
  decidable_of_iff (∀ r ∈ s.inits, r.count ')' ≤ r.count '(')
    (by simp only [unmatched_iff, List.mem_inits])

/-- **A list that is never closed** goes to the end of the text. -/
theorem parameterText?_unmatched (free : '(' ∉ front) (unmatched : Unmatched s) :
    parameterText? (front ++ '(' :: s) = some s := by
  have covered := unmatched_iff.mp unmatched
  have whole : insideParentheses 1 s = s := by
    have read : insideParentheses 1 (s ++ []) = _ :=
      insideParentheses_append fun r hr => Nat.lt_succ_of_le (covered r hr)
    rwa [insideParentheses, List.append_nil] at read
  rw [parameterText?_open free, whole]

/-- A list ends the text it is read in, or the parenthesis behind it closes it. -/
theorem insideParentheses_ends (depth : Nat) (s : List Char) :
    insideParentheses depth s = s ∨ ∃ behind, insideParentheses depth s ++ ')' :: behind = s := by
  induction s generalizing depth with
  | nil => exact .inl rfl
  | cons c s ih =>
    have longer (n : Nat) : c :: insideParentheses n s = c :: s ∨
        ∃ behind, c :: insideParentheses n s ++ ')' :: behind = c :: s := by
      rcases ih n with all | ⟨behind, whole⟩
      · exact .inl (by rw [all])
      · exact .inr ⟨behind, by rw [List.cons_append, whole]⟩
    rw [insideParentheses]
    split
    case isTrue => exact longer _
    case isFalse =>
      split
      case isTrue closes =>
        split
        case isTrue => exact .inr ⟨s, by rw [closes, List.nil_append]⟩
        case isFalse => exact longer _
      case isFalse => exact longer _

/-- Segments without a comma are counted as they were joined; if there are none, the empty text is
    one segment, which is blank. -/
theorem countP_pieces_joinWith (free : ∀ p ∈ segments, ',' ∉ p) :
    ((pieces ',' (joinWith ',' segments)).countP fun piece => !allBlank piece) =
      segments.countP fun piece => !allBlank piece := by
  rcases eq_or_ne segments [] with rfl | some
  · rfl
  · rw [pieces_joinWith some free]

end Lists

/-! ## 2. The search for the list, in bytes -/

/-- The byte at which the outermost of `depth` open parentheses is closed, `offset` being the byte
    at which the text begins, or none if it is not closed in it. Nothing is told if a parenthesis is
    closed while none is open. -/
def closing? (depth offset : Nat) : List Char → Option (Option Nat)
  | [] => some none
  | c :: rest =>
    if c = '(' then closing? (depth + 1) (offset + c.utf8Size) rest
    else if c = ')' then
      match Source.minus? depth 1 with
      | none => none
      | some left =>
        if left = 0 then some (some offset) else closing? left (offset + c.utf8Size) rest
    else closing? depth (offset + c.utf8Size) rest

/-- The number of parameters, the list being cut out by bytes: from behind the first parenthesis to
    the one that closes it, or to the end of the text. None if a parenthesis is closed while none is
    open, or if a cut cannot be made. -/
def parameterCount? (s : List Char) : Option Nat :=
  match findByte? '(' s with
  | none => some 0
  | some start => do
    let rest ← from? s start
    let close ← closing? 0 0 rest
    let list ← slice? s (start + 1) ((close.map (start + ·)).getD (utf8Length s))
    some (((pieces ',' list).map trim).countP (· ≠ []))

section Search

variable {depth : Nat}

/-- **The search stops where the list ends**, or nowhere if the list is all of the text: while a
    parenthesis is open, none is closed too many. -/
theorem closing?_list (some_open : 0 < depth) (offset : Nat) (s : List Char) :
    closing? depth offset s =
      some (if insideParentheses depth s = s then none
        else some (offset + utf8Length (insideParentheses depth s))) := by
  induction s generalizing depth offset with
  | nil => rfl
  | cons c s ih =>
    -- where the list goes on, it is one character longer than that of the rest
    have longer {n : Nat} (more : 0 < n) : closing? n (offset + c.utf8Size) s =
        some (if c :: insideParentheses n s = c :: s then none
          else some (offset + utf8Length (c :: insideParentheses n s))) := by
      rw [ih more, utf8Length_cons, Nat.add_assoc]
      simp only [List.cons.injEq, true_and]
    rw [closing?, insideParentheses]
    split
    case isTrue => exact longer (Nat.succ_pos depth)
    case isFalse =>
      split
      case isTrue =>
        have lowered : Source.minus? depth 1 = some (depth - 1) := if_pos some_open
        rw [lowered]
        by_cases last : depth ≤ 1
        · simp [last]
        · have more : depth - 1 ≠ 0 := by omega
          simpa [last, more] using longer (Nat.pos_of_ne_zero more)
      case isFalse => exact longer some_open

/-- What stands behind a parenthesis is cut out, the parenthesis being one byte long. -/
theorem slice?_behind (front list behind : List Char) :
    slice? (front ++ '(' :: (list ++ behind)) (utf8Length front + 1)
      (utf8Length front + (1 + utf8Length list)) = some list := by
  refine slice?_eq_some_iff.mpr ⟨front ++ ['('], behind, by simp, ?_, ?_⟩
  · rw [utf8Length_append]
    rfl
  · rw [List.append_assoc, utf8Length_append]
    rfl

/-- **The list is found for every text**, and what is counted in it is the number of parameters. -/
theorem parameterCount?_eq (s : List Char) : parameterCount? s = some (parameterCount s) := by
  by_cases opens : '(' ∈ s
  case neg =>
    rw [parameterCount?, findByte?_of_not_mem opens, parameterCount,
      parameterText?_of_not_mem opens]
  case pos =>
    obtain ⟨front, rest, rfl, free⟩ := List.eq_append_cons_of_mem opens
    have counted : (((pieces ',' (insideParentheses 1 rest)).map trim).countP (· ≠ [])) =
        parameterCount (front ++ '(' :: rest) := by
      rw [parameterCount_of_text (parameterText?_open free rest), List.countP_map]
      refine List.countP_congr fun piece _ => ?_
      simp [trim_eq_nil_iff]
    -- the first parenthesis is one byte long, and open where the list begins
    have first : closing? 0 0 ('(' :: rest) = closing? 1 1 rest := rfl
    rw [parameterCount?, findByte?_append_cons free, ← counted]
    simp only [from?_append, Option.bind_eq_bind, Option.bind_some, first]
    rw [closing?_list Nat.one_pos]
    rcases insideParentheses_ends 1 rest with all | ⟨behind, whole⟩
    · have cut := slice?_behind front rest []
      have length :
          utf8Length (front ++ '(' :: rest) = utf8Length front + (1 + utf8Length rest) :=
        utf8Length_append _ _
      rw [List.append_nil, ← length] at cut
      simp only [all, if_true, Option.bind_some, Option.map_none, Option.getD_none, cut]
    · have cut := slice?_behind front (insideParentheses 1 rest) (')' :: behind)
      rw [whole] at cut
      have shorter : insideParentheses 1 rest ≠ rest := fun same => by
        simpa [same] using congrArg List.length whole
      simp only [shorter, if_false, Option.bind_some, Option.map_some, Option.getD_some, cut]

end Search

/-! ## 3. What is counted -/

/-- **The count of a written list.** Segments without a comma stand joined by commas behind the
    first parenthesis of a text. If the parentheses in them balance and one more closes the list,
    then the count is the number of segments that are not blank, whatever follows; and it is that
    number too if the list is never closed and ends the text. For every text the list is found: no
    parenthesis is closed that is not open, and each cut is made between characters of the text. -/
theorem parameterCount_written :
    (∀ front segments, '(' ∉ front → (∀ segment ∈ segments, ',' ∉ segment) →
      (Balanced (joinWith ',' segments) → ∀ behind,
        parameterCount (front ++ '(' :: (joinWith ',' segments ++ ')' :: behind)) =
          segments.countP fun segment => !allBlank segment) ∧
      (Unmatched (joinWith ',' segments) →
        parameterCount (front ++ '(' :: joinWith ',' segments) =
          segments.countP fun segment => !allBlank segment)) ∧
      ∀ s, parameterCount? s = some (parameterCount s) := by
  refine ⟨fun front segments free apart => ⟨fun balanced behind => ?_, fun unmatched => ?_⟩,
    parameterCount?_eq⟩
  · rw [parameterCount_of_text (parameterText?_balanced free balanced behind),
      countP_pieces_joinWith apart]
  · rw [parameterCount_of_text (parameterText?_unmatched free unmatched),
      countP_pieces_joinWith apart]

/-- A list with a comma inside parentheses of its own, a blank segment and an empty one, with other
    lists behind it; and a list that is left open, together with a parenthesis in it. -/
theorem parameterCount_written_nested :
    let front := "fn é<π>".toList
    let closed := [" cb = g(1".toList, " (2))".toList, "\u3000".toList, [], "ü".toList]
    let behind := ")(x, y) \x7b z(a, b) \x7d".toList
    let unclosed := ["a".toList, " \t".toList, " h(b".toList, " k(c)".toList]
    '(' ∉ front ∧ (∀ segment ∈ closed, ',' ∉ segment) ∧ (∀ segment ∈ unclosed, ',' ∉ segment) ∧
      Balanced (joinWith ',' closed) ∧ Unmatched (joinWith ',' unclosed) ∧
      parameterCount (front ++ '(' :: (joinWith ',' closed ++ ')' :: behind)) = 3 ∧
      parameterCount (front ++ '(' :: joinWith ',' unclosed) = 3 ∧
      parameterCount? (front ++ '(' :: (joinWith ',' closed ++ ')' :: behind)) = some 3 := by
  intro front closed behind unclosed
  have free : '(' ∉ front := by decide
  have apart : ∀ segment ∈ closed, ',' ∉ segment := by decide
  have apart' : ∀ segment ∈ unclosed, ',' ∉ segment := by decide
  have balanced : Balanced (joinWith ',' closed) := by decide +kernel
  have unmatched : Unmatched (joinWith ',' unclosed) := by decide +kernel
  obtain ⟨written, found⟩ := parameterCount_written
  have count := (written front closed free apart).1 balanced behind
  have count' := (written front unclosed free apart').2 unmatched
  exact ⟨free, apart, apart', balanced, unmatched, count, count',
    (found _).trans (congrArg some count)⟩

end Analysis

end CodeInsight
