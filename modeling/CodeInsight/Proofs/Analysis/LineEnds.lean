import CodeInsight.Analysis.Pipeline
import CodeInsight.Proofs.Source.LineEnds
import CodeInsight.Source.Outline

/-!
# Analyses and line ends

* returns in front of line feeds, and one at the end, change no measure of a text: not its
  complexity (`complexity_withReturns`), and neither its parameters nor its nesting, which are those
  of what is not blank in it (`parameterCount_solid`, `nestingDepth_solid`);
* so **what an analysis tells of a file does not depend on what ends its lines**
  (`Analysis.told_withReturns`).
-/

namespace CodeInsight.Analysis

open CodeInsight.Text CodeInsight.Source

/-! ## 1. Measures -/

section Complexity

variable {tail s : List Char} {a b c : Char} {marked : Bool}

theorem branchWord_steady :
    branchWord.steady .unknown = true ∧ branchWord.stance .unknown = .refuses := by
  decide

theorem pairCount_cons_of_ne (h : a ≠ c) : pairCount c (a :: s) = pairCount c s := by
  cases s with
  | nil => rfl
  | cons b s => simp [pairCount, h]

theorem pairCount_cons_withReturns (noReturn : c ≠ '\r') (noFeed : c ≠ '\n') (h : a ≠ c) :
    pairCount c (withReturns (a :: s) ++ tail) = pairCount c (withReturns s ++ tail) := by
  by_cases feed : a = '\n'
  · subst feed
    rw [withReturns_break, List.cons_append, List.cons_append,
      pairCount_cons_of_ne noReturn.symm, pairCount_cons_of_ne noFeed.symm]
  · rw [withReturns_cons s feed, List.cons_append, pairCount_cons_of_ne h]

/-- What a text with returns begins with is no character but a return or what the text begins
    with. -/
theorem head?_withReturns (ends : tail = [] ∨ tail = ['\r']) (noReturn : c ≠ '\r')
    (noFeed : c ≠ '\n') (s : List Char) :
    (withReturns s ++ tail).head? = some c ↔ s.head? = some c := by
  cases s with
  | nil =>
    rcases ends with rfl | rfl
    · rfl
    · simp [noReturn.symm]
  | cons b s =>
    by_cases feed : b = '\n'
    · subst feed
      simp [noReturn.symm, noFeed.symm]
    · simp [withReturns_cons s feed]

theorem pairCount_cons_of_head? (h : s.head? ≠ some c) : pairCount c (c :: s) = pairCount c s := by
  cases s with
  | nil => rfl
  | cons b s =>
    have other : b ≠ c := by simpa using h
    simp [pairCount, other]

theorem pairCount_withReturns (ends : tail = [] ∨ tail = ['\r']) (noReturn : c ≠ '\r')
    (noFeed : c ≠ '\n') (s : List Char) :
    pairCount c (withReturns s ++ tail) = pairCount c s := by
  have single {a : Char} {s : List Char} (alone : a = c → s.head? ≠ some c)
      (ih : pairCount c (withReturns s ++ tail) = pairCount c s) :
      pairCount c (withReturns (a :: s) ++ tail) = pairCount c s := by
    by_cases same : a = c
    · subst same
      rw [withReturns_cons s noFeed, List.cons_append, pairCount_cons_of_head?, ih]
      exact (head?_withReturns ends noReturn noFeed s).not.mpr (alone rfl)
    · rw [pairCount_cons_withReturns noReturn noFeed same, ih]
  have last : pairCount c (withReturns [] ++ tail) = pairCount c [] := by
    rcases ends with rfl | rfl
    · rfl
    · rfl
  fun_induction pairCount c s with
  | case1 a b rest pair ih =>
    obtain ⟨rfl, rfl⟩ := pair
    simp [withReturns_cons, noFeed, pairCount, ih]
  | case2 a b rest pair ih =>
    refine single (fun same => ?_) ih
    simpa [same] using pair
  | case3 s none =>
    cases s with
    | nil => exact last
    | cons a s =>
      cases s with
      | nil => exact single (fun _ => by simp) last
      | cons b s => exact absurd rfl (none a b s)

theorem conditionalsAfter_cons_of_ne (h : c ≠ '?') :
    conditionalsAfter marked (c :: s) = conditionalsAfter false s := by
  rw [conditionalsAfter]
  exact h

theorem conditionalsAfter_withReturns (ends : tail = [] ∨ tail = ['\r']) (marked : Bool)
    (s : List Char) :
    conditionalsAfter marked (withReturns s ++ tail) = conditionalsAfter marked s := by
  induction s generalizing marked with
  | nil =>
    rcases ends with rfl | rfl
    · rfl
    · rfl
  | cons c s ih =>
    by_cases feed : c = '\n'
    · subst feed
      rw [withReturns_break, List.cons_append, List.cons_append,
        conditionalsAfter_cons_of_ne (by decide), conditionalsAfter_cons_of_ne (by decide),
        conditionalsAfter_cons_of_ne (by decide), ih]
    · rw [withReturns_cons s feed, List.cons_append]
      by_cases mark : c = '?'
      · subst mark
        have next {c : Char} (noReturn : c ≠ '\r') (noFeed : c ≠ '\n') :
            ((withReturns s ++ tail).head? != some c) = (s.head? != some c) := by
          rw [Bool.eq_iff_iff, bne_iff_ne, bne_iff_ne]
          exact (head?_withReturns ends noReturn noFeed s).not
        rw [conditionalsAfter, conditionalsAfter, next (by decide) (by decide),
          next (by decide) (by decide), ih]
      · rw [conditionalsAfter_cons_of_ne mark, conditionalsAfter_cons_of_ne mark, ih]

/-- **Returns do not change the complexity of a text.** -/
theorem complexity_withReturns (ends : tail = [] ∨ tail = ['\r']) (s : List Char) :
    complexity (withReturns s ++ tail) = complexity s := by
  rw [complexity, complexity, conditionals, conditionals, conditionalsAfter_withReturns ends,
    pairCount_withReturns ends (by decide) (by decide),
    pairCount_withReturns ends (by decide) (by decide),
    Pattern.findAll_withReturns ends branchWord_steady.1 branchWord_steady.2, List.length_map]

end Complexity

/-! ### What is not blank -/

/-- What of a text is not blank. -/
def solid (s : List Char) : List Char := s.filter fun c => !isBlank c

section Solid

variable {tail s : List Char} {c : Char} {depth : Nat} {p : Char → Bool}

theorem solid_withReturns (ends : tail = [] ∨ tail = ['\r']) (s : List Char) :
    solid (withReturns s ++ tail) = solid s := by
  have last : solid tail = [] := by
    rcases ends with rfl | rfl
    · rfl
    · rfl
  rw [solid, List.filter_append]
  rw [solid] at last
  rw [last, List.append_nil]
  induction s with
  | nil => rfl
  | cons c s ih =>
    by_cases feed : c = '\n'
    · subst feed
      exact ih
    · rw [withReturns_cons s feed, List.filter_cons, ih, solid, solid, List.filter_cons]

theorem solid_cons_of_blank (h : isBlank c = true) : solid (c :: s) = solid s := by
  simp [solid, h]

theorem solid_cons (h : isBlank c = false) : solid (c :: s) = c :: solid s := by
  simp [solid, h]

/-- A blank is none of the characters a measure looks for. -/
theorem ne_of_blank (h : isBlank c = true) :
    c ≠ '(' ∧ c ≠ ')' ∧ c ≠ ',' ∧ c ≠ '{' ∧ c ≠ '}' := by
  refine ⟨?_, ?_, ?_, ?_, ?_⟩ <;>
  · rintro rfl
    cases h

theorem nestingFrom_solid (depth : Nat) (s : List Char) :
    nestingFrom depth (solid s) = nestingFrom depth s := by
  fun_induction nestingFrom depth s with
  | case1 => rfl
  | case2 depth rest ih => rw [solid_cons rfl, nestingFrom, ih]
  | case3 depth rest ih => rw [solid_cons rfl, nestingFrom, ih]
  | case4 depth c rest open_ close ih =>
    cases blank : isBlank c with
    | true => rw [solid_cons_of_blank blank, ih]
    | false =>
      rw [solid_cons blank, nestingFrom, ih]
      · exact open_
      · exact close

/-- **The nesting of a text is that of what is not blank in it.** -/
theorem nestingDepth_solid (s : List Char) : nestingDepth (solid s) = nestingDepth s :=
  nestingFrom_solid 0 s

theorem insideParentheses_solid (depth : Nat) (s : List Char) :
    insideParentheses depth (solid s) = solid (insideParentheses depth s) := by
  induction s generalizing depth with
  | nil => rfl
  | cons c s ih =>
    cases blank : isBlank c with
    | true =>
      obtain ⟨notOpen, notClose, -⟩ := ne_of_blank blank
      rw [solid_cons_of_blank blank, insideParentheses, if_neg notOpen, if_neg notClose,
        solid_cons_of_blank blank, ih]
    | false =>
      rw [solid_cons blank, insideParentheses, insideParentheses]
      split
      case isTrue => rw [solid_cons blank, ih]
      case isFalse =>
        split
        case isTrue =>
          split
          case isTrue => rfl
          case isFalse => rw [solid_cons blank, ih]
        case isFalse => rw [solid_cons blank, ih]

theorem parameterText?_solid (s : List Char) :
    parameterText? (solid s) = (parameterText? s).map solid := by
  induction s with
  | nil => rfl
  | cons c s ih =>
    by_cases opens : c = '('
    · subst opens
      rw [solid_cons rfl]
      exact congrArg some (insideParentheses_solid 1 s)
    · have skipped (rest : List Char) : parameterText? (c :: rest) = parameterText? rest := by
        simp [parameterText?, opens]
      rw [skipped, ← ih]
      cases blank : isBlank c with
      | true => rw [solid_cons_of_blank blank]
      | false => rw [solid_cons blank, skipped]

theorem pieces_solid (s : List Char) : pieces ',' (solid s) = (pieces ',' s).map solid := by
  induction s with
  | nil => rfl
  | cons c s ih =>
    obtain ⟨first, more, cut⟩ := exists_pieces ',' s
    rw [cut, List.map_cons] at ih
    by_cases comma : c = ','
    · subst comma
      rw [solid_cons rfl, pieces_sep, pieces_sep, cut, ih]
      rfl
    · rw [pieces_cons comma cut, List.map_cons]
      cases blank : isBlank c with
      | true => rw [solid_cons_of_blank blank, solid_cons_of_blank blank, ih]
      | false => rw [solid_cons blank, solid_cons blank, pieces_cons comma ih]

theorem allBlank_solid (s : List Char) : allBlank (solid s) = allBlank s := by
  induction s with
  | nil => rfl
  | cons c s ih =>
    cases blank : isBlank c with
    | true =>
      rw [solid_cons_of_blank blank, ih, allBlank, allBlank, List.all_cons, blank, Bool.true_and]
    | false =>
      rw [solid_cons blank, allBlank, allBlank, List.all_cons, List.all_cons, blank,
        Bool.false_and, Bool.false_and]

/-- **The parameters of a text are those of what is not blank in it.** -/
theorem parameterCount_solid (s : List Char) : parameterCount (solid s) = parameterCount s := by
  rw [parameterCount, parameterCount, parameterText?_solid]
  cases parameterText? s with
  | none => rfl
  | some inside => simp [pieces_solid, List.countP_map, Function.comp_def, allBlank_solid]

/-- Returns are blank, so they are no part of what these two measure. -/
theorem parameterCount_withReturns (ends : tail = [] ∨ tail = ['\r']) (s : List Char) :
    parameterCount (withReturns s ++ tail) = parameterCount s := by
  rw [← parameterCount_solid, solid_withReturns ends, parameterCount_solid]

theorem nestingDepth_withReturns (ends : tail = [] ∨ tail = ['\r']) (s : List Char) :
    nestingDepth (withReturns s ++ tail) = nestingDepth s := by
  rw [← nestingDepth_solid, solid_withReturns ends, nestingDepth_solid]

end Solid

/-! ## 2. Symbols -/

section Symbols

variable {t : Thresholds} {path : String} {content : List Char} {s s' : Symbol}

theorem describe_same (h : SameSymbol s s') : describe s' = describe s := by
  rw [describe, describe, h.kind, h.name]

theorem symbolComplexity_same (h : SameSymbol s s') :
    symbolComplexity s' = symbolComplexity s := by
  obtain ⟨tail, ends, text⟩ := h.signature
  rw [symbolComplexity, text, complexity_withReturns ends, symbolComplexity]

theorem complexityFinding?_same (h : SameSymbol s s') :
    complexityFinding? t path s' = complexityFinding? t path s := by
  simp only [complexityFinding?, symbolComplexity_same h, describe_same h, h.line, h.column]

theorem smell_same (h : SameSymbol s s') (message : String) :
    smell path s' message = smell path s message := by
  rw [smell, smell, h.line, h.column]

/-- **The smells of a symbol are the same**: its length is read off the lines of the file, the rest
    off its signature. -/
theorem smells_same (free : '\r' ∉ content) (h : SameSymbol s s') :
    smells t path (withReturns content) s' = smells t path content s := by
  obtain ⟨tail, ends, text⟩ := h.signature
  have length : lengthSmell? t path (withReturns content) s' = lengthSmell? t path content s := by
    simp only [lengthSmell?, braceSpan, lines_withReturns free, describe_same h, smell_same h,
      h.line]
  have parameters : parameterSmell? t path s' = parameterSmell? t path s := by
    simp only [parameterSmell?, text, parameterCount_withReturns ends, describe_same h,
      smell_same h]
  have nesting : nestingSmell? t path s' = nestingSmell? t path s := by
    simp only [nestingSmell?, text, nestingDepth_withReturns ends, describe_same h, smell_same h]
  rw [smells, smells, length, parameters, nesting]

end Symbols

/-! ## 3. Analyses -/

/-- A candidate for refactoring without the text of its symbol. -/
structure Proposal where
  kind : SymbolKind
  name : String
  line : Nat
  column : Nat
  complexity : Nat
  deriving DecidableEq, Repr

/-- What a candidate proposes to refactor. -/
def Candidate.proposal (c : Candidate) : Proposal :=
  ⟨c.symbol.kind, c.symbol.name, c.symbol.line, c.symbol.column, c.complexity⟩

/-- What a report tells of a file. -/
structure Told where
  findings : List Finding
  proposals : List Proposal
  signals : List Signal
  deriving DecidableEq, Repr

/-- What a report tells: all but the texts of the symbols. -/
def Report.told (r : Report) : Told := ⟨r.findings, r.candidates.map Candidate.proposal, r.signals⟩

/-- What an analysis tells of a file at a path, or why the file has no outline. -/
def told (t : Thresholds) (path content : String) : Except SourceError Told :=
  (Outline.ofSource path content).map fun o => (run t path content o).told

section Analyses

variable {t : Thresholds} {path content : String} {o o' : Outline}

theorem proposal_same {s s' : Symbol} (h : SameSymbol s s') :
    (candidate? t s').map Candidate.proposal = (candidate? t s).map Candidate.proposal := by
  simp only [candidate?, symbolComplexity_same h]
  split
  case isTrue => simp [Candidate.proposal, h.kind, h.name, h.line, h.column]
  case isFalse => rfl

/-- The symbols an analysis looks at are the same too, for it chooses them by what they declare. -/
theorem analyzable_same (h : List.Forall₂ SameSymbol o.symbols o'.symbols) :
    List.Forall₂ SameSymbol o.analyzable o'.analyzable :=
  List.rel_filter (fun s s' same => by simp only [same.kind]) h

/-- What is made of each symbol is the same in all, if it is the same for the same symbol. -/
theorem flatMap_same {α : Type} {f f' : Symbol → List α} {ss ss' : List Symbol}
    (h : List.Forall₂ SameSymbol ss ss') (same : ∀ {s s'}, SameSymbol s s' → f' s' = f s) :
    ss'.flatMap f' = ss.flatMap f := by
  induction h with
  | nil => rfl
  | cons first _ ih => rw [List.flatMap_cons, List.flatMap_cons, same first, ih]

theorem filterMap_same {α : Type} {f f' : Symbol → Option α} {ss ss' : List Symbol}
    (h : List.Forall₂ SameSymbol ss ss') (same : ∀ {s s'}, SameSymbol s s' → f' s' = f s) :
    ss'.filterMap f' = ss.filterMap f := by
  rw [List.filterMap_eq_flatMap_toList, List.filterMap_eq_flatMap_toList]
  exact flatMap_same h fun first => by rw [same first]

theorem detect_withReturns {content : List Char} (free : '\r' ∉ content) (window : Nat) :
    Intent.detect (withReturns content) window = Intent.detect content window := by
  simp only [Intent.detect, lastLines, lines_withReturns free]

/-- **A report tells the same** if the symbols are the same but for line ends. -/
theorem told_run_withReturns (t : Thresholds) (path : String) (free : '\r' ∉ content.toList)
    (h : List.Forall₂ SameSymbol o.symbols o'.symbols) :
    (run t path (String.ofList (withReturns content.toList)) o').told =
      (run t path content o).told := by
  have symbols := analyzable_same h
  simp only [run, Report.told, String.toList_ofList, detect_withReturns free,
    List.map_filterMap, filterMap_same symbols complexityFinding?_same,
    flatMap_same symbols (smells_same free), filterMap_same symbols proposal_same]

theorem mem_withReturns {c : Char} {s : List Char} (noReturn : c ≠ '\r') :
    c ∈ withReturns s ↔ c ∈ s := by
  induction s with
  | nil => rfl
  | cons a s ih =>
    by_cases feed : a = '\n'
    · subst feed
      simp [noReturn, ih]
    · rw [withReturns_cons s feed, List.mem_cons, List.mem_cons, ih]

/-- **What an analysis tells of a file does not depend on what ends its lines**: with a return in
    front of each line feed, the file has no outline for the same cause, or its report tells the
    same. -/
theorem told_withReturns (t : Thresholds) (path content : String) (free : '\r' ∉ content.toList) :
    told t path (String.ofList (withReturns content.toList)) = told t path content := by
  have binary : (withReturns content.toList).contains '\x00' = content.toList.contains '\x00' := by
    rw [Bool.eq_iff_iff, List.contains_iff_mem, List.contains_iff_mem,
      mem_withReturns (by decide)]
  rw [told, told, Outline.ofSource, Outline.ofSource]
  cases Language.detect path with
  | error e => simp only [Except.map]
  | ok language =>
    dsimp only
    rw [String.toList_ofList, binary]
    split
    case isTrue => simp only [Except.map]
    case isFalse =>
      exact congrArg Except.ok
        (told_run_withReturns t path free (symbolsIn_withReturns language content.toList))

/-- A function over three lines that has a parameter where none is allowed. -/
theorem told_withReturns_threeLines :
    let t : Thresholds := { maxParameters := 0 }
    let content := "def f(\n  a):\n  #cleanup\n"
    '\r' ∉ content.toList ∧
      told t "a.py" "def f(\r\n  a):\r\n  #cleanup\r\n" = told t "a.py" content ∧
      told t "a.py" content =
        .ok ⟨[⟨"a.py", 1, 0, .info, .smell, "Function 'f' has 1 parameters (limit 0)"⟩], [],
          [Intent.signal .refactoring]⟩ := by
  intro t content
  have free : '\r' ∉ content.toList := by decide
  have returned : String.ofList (withReturns content.toList) =
      "def f(\r\n  a):\r\n  #cleanup\r\n" := by decide +kernel
  refine ⟨free, returned ▸ told_withReturns t "a.py" content free, ?_⟩
  decide +kernel

end Analyses

end CodeInsight.Analysis
