import CodeInsight.Proofs.Analysis.LineEnds
import CodeInsight.Proofs.Source.Openings
import CodeInsight.Proofs.Text.Runs
import Mathlib.Algebra.BigOperators.Group.Finset.Piecewise

/-!
# What complexity counts

* a branching word is found at a place exactly if the place begins a maximal run of word characters
  and the run is one of the words (`reaches_branchWord_iff`, `isSome_matchAt?_branchWord`), so there
  are as many matches as there are such runs (`length_findAll_branchWord`);
* pairs of a character and conditional question marks are counted run by run too (`pairCount_eq`,
  `conditionals_eq`);
* so **complexity is a count of maximal runs**, and a line feed between two texts parts what is
  counted in the one from what is counted in the other (`complexity_runs`).
-/

namespace CodeInsight.Text

/-! ## 1. Words between edges -/

section Words

variable {a b : Cursor} {w : String} {ws : List String} {s before after : List Char} {c : Char}

namespace Pattern

/-- One of several words is what is read. -/
theorem reaches_anyText_iff (some : ws ≠ []) :
    (anyText ws).Reaches a b ↔ ∃ w ∈ ws, a.Passes w.toList b := by
  induction ws with
  | nil => exact absurd rfl some
  | cons w ws ih =>
    cases ws with
    | nil =>
      simp only [List.mem_singleton, exists_eq_left]
      exact ⟨passes_text, reaches_text⟩
    | cons v ws =>
      rw [List.exists_mem_cons_iff, ← ih (List.cons_ne_nil v ws)]
      constructor
      · intro h
        cases h with
        | altLeft first => exact .inl (passes_text first)
        | altRight later => exact .inr later
      · rintro (first | later)
        · exact .altLeft (reaches_text first)
        · exact .altRight later

end Pattern

/-- What is read of word characters begins and ends inside a word. -/
theorem Cursor.Passes.insideWord (h : a.Passes s b) (nonempty : s ≠ [])
    (all : ∀ c ∈ s, isWord c = true) : a.wordAfter = true ∧ b.wordBefore = true := by
  constructor
  · obtain ⟨c, s, rfl⟩ := List.exists_cons_of_ne_nil nonempty
    rw [Cursor.wordAfter, h.after]
    exact all c List.mem_cons_self
  · rcases List.eq_nil_or_concat s with rfl | ⟨s, c, rfl⟩
    · exact absurd rfl nonempty
    · rw [Cursor.wordBefore, h.before, List.concat_eq_append, List.reverse_append]
      exact all c (by simp)

end Words

end CodeInsight.Text

namespace CodeInsight.Analysis

open CodeInsight.Text Finset

/-! ## 2. Branching words -/

section Branching

variable {a b : Cursor} {w : String} {before after chars : List Char} {c : Char}

/-- Branching words are words. -/
theorem isWord_of_mem_branchWords (h : w ∈ branchWords) :
    w.toList ≠ [] ∧ ∀ c ∈ w.toList, isWord c = true := by
  have all : (branchWords.all fun w => !w.toList.isEmpty && w.toList.all isWord) = true := by
    decide
  simpa using List.all_eq_true.mp all w h

/-- **A branching word is read** where no word goes on before it, and none behind it. -/
theorem reaches_branchWord_iff : branchWord.Reaches a b ↔
    ∃ w ∈ branchWords, a.Passes w.toList b ∧ a.wordBefore = false ∧ b.wordAfter = false := by
  have edges {w : String} (h : w ∈ branchWords) (passes : a.Passes w.toList b) :
      (a.atWordEdge = true ↔ a.wordBefore = false) ∧
        (b.atWordEdge = true ↔ b.wordAfter = false) := by
    obtain ⟨nonempty, all⟩ := isWord_of_mem_branchWords h
    obtain ⟨inside, inside'⟩ := passes.insideWord nonempty all
    rw [Cursor.atWordEdge, Cursor.atWordEdge, inside, inside']
    simp
  have some : branchWords ≠ [] := List.cons_ne_nil _ _
  constructor
  · intro h
    obtain ⟨y, h, last⟩ := Pattern.exists_reaches_seq h
    obtain ⟨x, first, words⟩ := Pattern.exists_reaches_seq h
    cases first with
    | wordEdge first =>
      cases last with
      | wordEdge last =>
        obtain ⟨w, hw, passes⟩ := (Pattern.reaches_anyText_iff some).mp words
        obtain ⟨begins, ends⟩ := edges hw passes
        exact ⟨w, hw, passes, begins.mp first, ends.mp last⟩
  · rintro ⟨w, hw, passes, begins, ends⟩
    obtain ⟨first, last⟩ := edges hw passes
    exact .seq (.seq (.wordEdge (first.mpr begins))
      ((Pattern.reaches_anyText_iff some).mpr ⟨w, hw, passes⟩)) (.wordEdge (last.mpr ends))

/-- **At the beginning of a run of word characters** a branching word is read exactly if the run is
    one, and then all of it is read. -/
theorem reaches_branchWord_run (all : ∀ c ∈ chars, isWord c = true)
    (begins : ∀ c ∈ before.head?, isWord c = false) (ends : ∀ c ∈ after.head?, isWord c = false) :
    branchWord.Reaches ⟨before, chars ++ after⟩ b ↔
      String.ofList chars ∈ branchWords ∧ b = ⟨chars.reverse ++ before, after⟩ := by
  have run : Cursor.Passes ⟨before, chars ++ after⟩ chars ⟨chars.reverse ++ before, after⟩ :=
    ⟨rfl, rfl⟩
  rw [reaches_branchWord_iff]
  simp only [Cursor.wordBefore_eq_false_iff, Cursor.wordAfter_eq_false_iff]
  constructor
  · rintro ⟨w, hw, passes, -, stops⟩
    obtain ⟨-, letters⟩ := isWord_of_mem_branchWords hw
    -- both the run and the word are all that stands there of word characters
    have whole : chars ++ after = w.toList ++ b.after := passes.after
    have same : w.toList = chars := by
      rw [← (span_of_run letters stops).1, ← whole, (span_of_run all ends).1]
    rw [same] at passes
    rw [← same, String.ofList_toList]
    exact ⟨hw, same ▸ passes.unique run⟩
  · rintro ⟨hw, rfl⟩
    exact ⟨_, hw, by rwa [String.toList_ofList], begins, ends⟩

/-- Where no word begins no branching word is found. -/
theorem matchAt?_branchWord_eq_none (h : a.wordAfter = true → a.wordBefore = true) :
    branchWord.matchAt? a = none := by
  rw [← Option.not_isSome_iff_eq_none, Pattern.isSome_matchAt?_iff]
  rintro ⟨b, reached⟩
  obtain ⟨w, hw, passes, begins, -⟩ := reaches_branchWord_iff.mp reached
  obtain ⟨nonempty, letters⟩ := isWord_of_mem_branchWords hw
  rw [h (passes.insideWord nonempty letters).1] at begins
  cases begins

/-- Inside a word none is found. -/
theorem findAllFrom_branchWord_inside (all : ∀ c ∈ chars, isWord c = true)
    (inside : ∃ b ∈ before.head?, isWord b = true) (after : List Char) :
    branchWord.findAllFrom 0 before (chars ++ after) =
      branchWord.findAllFrom 0 (chars.reverse ++ before) after := by
  induction chars generalizing before with
  | nil => rfl
  | cons c chars ih =>
    obtain ⟨inClass, rest⟩ := List.forall_mem_cons.mp all
    have none : branchWord.matchAt? ⟨before, c :: (chars ++ after)⟩ = Option.none := by
      refine matchAt?_branchWord_eq_none fun _ => ?_
      by_contra apart
      obtain ⟨b, there, word⟩ := inside
      rw [Cursor.wordBefore_eq_false_iff.mp (by simpa using apart) b there] at word
      cases word
    rw [List.cons_append, Pattern.findAllFrom, none]
    dsimp only
    rw [ih rest ⟨c, rfl, inClass⟩, List.reverse_cons, List.append_assoc]
    rfl

/-- **There are as many branching words** as there are maximal runs of word characters that are
    one. -/
theorem length_findAll_branchWord (s : List Char) :
    (branchWord.findAll s).length =
      #{r ∈ runs isWord s | String.ofList r.chars ∈ branchWords} := by
  rw [card_filter]
  refine sum_runs_of_scan _ (fun before after => (branchWord.findAllFrom 0 before after).length)
    (fun before => ?_) (fun before c after apart => ?_)
    (fun before chars after nonempty all begins ends => ?_) s
  · have none : branchWord.matchAt? ⟨before, []⟩ = none :=
      matchAt?_branchWord_eq_none fun word => nomatch word
    rw [Pattern.findAllFrom, none]
    rfl
  · have none : branchWord.matchAt? ⟨before, c :: after⟩ = none := by
      refine matchAt?_branchWord_eq_none fun word => ?_
      rw [Cursor.wordAfter_eq_false_iff.mpr (by simpa using apart)] at word
      cases word
    rw [Pattern.findAllFrom, none]
  · have reads (b : Cursor) := reaches_branchWord_run (b := b) all begins ends
    obtain ⟨c, chars, rfl⟩ := List.exists_cons_of_ne_nil nonempty
    obtain ⟨inClass, rest⟩ := List.forall_mem_cons.mp all
    simp only [List.cons_append] at reads ⊢
    by_cases word : String.ofList (c :: chars) ∈ branchWords
    · obtain ⟨m, found⟩ := Option.isSome_iff_exists.mp
        (Pattern.isSome_matchAt?_iff.mpr ⟨_, (reads _).mpr ⟨word, rfl⟩⟩)
      have stop := ((reads _).mp (Pattern.reaches_of_matchAt? found).2).2
      have passes : Cursor.Passes ⟨before, c :: (chars ++ after)⟩ (c :: chars) m.stop :=
        stop ▸ ⟨rfl, rfl⟩
      rw [if_pos word, Pattern.findAllFrom_of_matchAt? found passes,
        if_neg nonempty, stop, List.length_cons, Nat.add_comm]
    · have none : branchWord.matchAt? ⟨before, c :: (chars ++ after)⟩ = none := by
        rw [← Option.not_isSome_iff_eq_none, Pattern.isSome_matchAt?_iff]
        rintro ⟨b, reached⟩
        exact word ((reads b).mp reached).1
      rw [if_neg word, Nat.zero_add, Pattern.findAllFrom, none]
      dsimp only
      rw [findAllFrom_branchWord_inside rest ⟨c, rfl, inClass⟩, List.reverse_cons,
        List.append_assoc]
      rfl

end Branching

/-! ## 3. Operators -/

section Operators

variable {after chars : List Char} {c : Char}

/-- A run holds half as many pairs as characters. -/
theorem pairCount_run (all : ∀ b ∈ chars, (b == c) = true)
    (ends : ∀ b ∈ after.head?, (b == c) = false) :
    pairCount c (chars ++ after) = chars.length / 2 + pairCount c after := by
  have alone : after.head? ≠ some c := fun first => by simpa using ends c first
  obtain ⟨n, rfl⟩ : ∃ n, chars = List.replicate n c :=
    ⟨_, List.eq_replicate_of_mem fun b there => eq_of_beq (all b there)⟩
  clear all
  rw [List.length_replicate]
  induction n using Nat.twoStepInduction with
  | zero => simp
  | one => simpa using pairCount_cons_of_head? alone
  | more n ih _ =>
    rw [List.replicate_succ, List.replicate_succ, List.cons_append, List.cons_append, pairCount,
      if_pos ⟨rfl, rfl⟩, ih]
    omega

/-- **Pairs of a character** are counted run by run. -/
theorem pairCount_eq (c : Char) (s : List Char) :
    pairCount c s = ∑ r ∈ runs (· == c) s, r.chars.length / 2 := by
  refine sum_runs_of_scan (fun r => r.chars.length / 2) (fun _ after => pairCount c after)
    (fun _ => rfl) (fun _ b after apart => ?_) (fun _ chars after _ all _ ends => ?_) s
  · exact pairCount_cons_of_ne (by simpa using apart)
  · exact pairCount_run all ends

/-- A question mark behind another one is none that stands alone. -/
theorem conditionalsAfter_marks (all : ∀ b ∈ chars, (b == '?') = true) (after : List Char) :
    conditionalsAfter true (chars ++ after) = conditionalsAfter true after := by
  induction chars with
  | nil => rfl
  | cons b chars ih =>
    obtain ⟨mark, rest⟩ := List.forall_mem_cons.mp all
    obtain rfl := eq_of_beq mark
    rw [List.cons_append, conditionalsAfter, ih rest]
    simp

/-- **Conditional question marks** are the runs of one question mark that no dot follows. -/
theorem conditionals_eq (s : List Char) :
    conditionals s =
      #{r ∈ runs (· == '?') s | r.chars.length = 1 ∧ r.after.head? ≠ some '.'} := by
  rw [card_filter]
  refine sum_runs_of_scan _
    (fun before after => conditionalsAfter (before.head? == some '?') after) (fun _ => rfl)
    (fun before b after apart => ?_) (fun before chars after nonempty all begins ends => ?_) s
  · have other : b ≠ '?' := by simpa using apart
    rw [conditionalsAfter_cons_of_ne other, List.head?_cons]
    exact congrArg (conditionalsAfter · after) apart.symm
  · have first : (before.head? == some '?') = false := by
      rw [beq_eq_false_iff_ne]
      exact fun mark => by simpa using begins '?' mark
    have alone : after.head? ≠ some '?' := fun mark => by simpa using ends '?' mark
    obtain ⟨b, chars, rfl⟩ := List.exists_cons_of_ne_nil nonempty
    obtain ⟨mark, rest⟩ := List.forall_mem_cons.mp all
    obtain rfl := eq_of_beq mark
    have last : ((('?' :: chars).reverse ++ before).head? == some '?') = true := by
      rw [List.eq_replicate_of_mem fun b there => eq_of_beq (all b there), List.reverse_replicate]
      rfl
    rw [first, last, List.cons_append, conditionalsAfter, conditionalsAfter_marks rest]
    congr 1
    cases chars with
    | nil => simp [alone]
    | cons b chars =>
      obtain ⟨mark, -⟩ := List.forall_mem_cons.mp rest
      obtain rfl := eq_of_beq mark
      simp

end Operators

/-! ## 4. Complexity -/

theorem complexity_eq (s : List Char) :
    complexity s = 1 + #{r ∈ runs isWord s | String.ofList r.chars ∈ branchWords} +
        ∑ r ∈ runs (· == '&') s, r.chars.length / 2 + ∑ r ∈ runs (· == '|') s, r.chars.length / 2 +
        #{r ∈ runs (· == '?') s | r.chars.length = 1 ∧ r.after.head? ≠ some '.'} := by
  rw [complexity, length_findAll_branchWord, pairCount_eq, pairCount_eq, conditionals_eq]

/-- **Nothing is counted across a line feed.** -/
theorem complexity_append_feed (s t : List Char) :
    complexity (s ++ '\n' :: t) + 1 = complexity s + complexity t := by
  have dot (r : Stretch) (t : List Char) :
      (r.after ++ '\n' :: t).head? ≠ some '.' ↔ r.after.head? ≠ some '.' := by
    cases r.after with
    | nil => simp
    | cons c after => simp
  have words := sum_runs_append_cons isWord
    (fun r => if String.ofList r.chars ∈ branchWords then 1 else 0)
    (show isWord '\n' = false by decide) (fun _ _ => rfl) (fun _ _ => rfl) s t
  have ands := sum_runs_append_cons (· == '&') (fun r => r.chars.length / 2)
    (show ('\n' == '&') = false by decide) (fun _ _ => rfl) (fun _ _ => rfl) s t
  have bars := sum_runs_append_cons (· == '|') (fun r => r.chars.length / 2)
    (show ('\n' == '|') = false by decide) (fun _ _ => rfl) (fun _ _ => rfl) s t
  have marks := sum_runs_append_cons (· == '?')
    (fun r => if r.chars.length = 1 ∧ r.after.head? ≠ some '.' then 1 else 0)
    (show ('\n' == '?') = false by decide) (fun r t => by simp only [dot r t])
    (fun _ _ => rfl) s t
  simp only [complexity_eq, card_filter, words, ands, bars, marks]
  omega

/-- **Complexity is a count of maximal runs**: one, and one more for each run of word characters
    that is a branching word, for each two of a run of ampersands or of bars, and for each question
    mark alone that no dot follows. So of two texts with a line feed between them the complexities
    add up, but for the one that both begin with. -/
theorem complexity_runs (s : List Char) :
    complexity s = 1 +
        #{r ∈ runs isWord s |
          String.ofList r.chars ∈ ["if", "else", "for", "while", "case", "catch"]} +
        ∑ r ∈ runs (· == '&') s, r.chars.length / 2 + ∑ r ∈ runs (· == '|') s, r.chars.length / 2 +
        #{r ∈ runs (· == '?') s | r.chars.length = 1 ∧ r.after.head? ≠ some '.'} ∧
      ∀ t, complexity (s ++ '\n' :: t) = complexity s + complexity t - 1 :=
  ⟨complexity_eq s, fun t => Nat.eq_sub_of_add_eq (complexity_append_feed s t)⟩

/-- Of three ampersands two are a pair, and of the question marks only the first stands alone. -/
example : complexity "iff (a &&& b) ? x : y?.z ?? w".toList = 3 := by decide +kernel

end CodeInsight.Analysis
