import CodeInsight.Proofs.Source.Openings
import CodeInsight.Proofs.Source.Signatures
import Mathlib.Data.List.Nodup

/-!
# Where symbols are

* a line begins at one place only, and the matches of a pattern begin at different places
  (`Cursor.eq_of_line`, `Pattern.findAll_apart`), so the matches of a language's declarations are on
  lines of their own (`lines_nodup`);
* a symbol stands behind the spaces and tabs of its line (`Located`), its signature is what the
  content goes on with there, and opens with a word of its kind;
* **the places of an outline's symbols are exact, and no two are on one line**
  (`Outline.locates_symbols`).
-/

namespace CodeInsight.Text

/-! ## 1. Places where lines begin -/

/-- **A line begins at one place.** -/
theorem Cursor.eq_of_line {a b : Cursor} (text : a.text = b.text) (ha : a.atLineStart = true)
    (hb : b.atLineStart = true) (line : a.line = b.line) : a = b := by
  have later {a b : Cursor} {t : List Char} (passes : a.Passes t b) (hb : b.atLineStart = true)
      (line : a.line = b.line) : a = b := by
    obtain ⟨before, after⟩ := passes
    rcases List.eq_nil_or_concat t with rfl | ⟨t, c, rfl⟩
    · obtain ⟨x, y⟩ := a
      obtain ⟨x', y'⟩ := b
      simp_all
    · -- what is read up to `b` ends with a line feed, so `b` is on a later line
      have last : b.before = c :: (t.reverse ++ a.before) := by
        rw [after]
        simp
      simp only [Cursor.atLineStart, last] at hb
      rw [eq_of_beq hb] at last
      simp only [Cursor.line, last, List.count_cons_self, List.count_append] at line
      omega
  rcases List.append_eq_append_iff.mp text with ⟨t, before, after⟩ | ⟨t, before, after⟩
  · have passes : a.Passes t b := ⟨after, by simpa using congrArg List.reverse before⟩
    exact later passes hb line
  · have passes : b.Passes t a := ⟨after, by simpa using congrArg List.reverse before⟩
    exact (later passes ha line.symm).symm

/-- Matches that are found from a place on begin there or later. -/
theorem Pattern.offset_le_of_mem_findAllFrom {p : Pattern} {m : Match} {skip : Nat}
    {before after : List Char} (h : m ∈ p.findAllFrom skip before after) :
    before.length ≤ m.start.offset := by
  induction after generalizing skip before with
  | nil =>
    cases skip with
    | zero =>
      obtain ⟨same, -⟩ := reaches_of_matchAt? (Option.mem_toList.mp h)
      rw [same]
      rfl
    | succ skip => cases h
  | cons c after ih =>
    have further {skip : Nat} (hm : m ∈ p.findAllFrom skip (c :: before) after) :
        before.length ≤ m.start.offset := Nat.le_of_succ_le (ih hm)
    cases skip with
    | succ skip => exact further h
    | zero =>
      rw [findAllFrom] at h
      split at h
      case h_1 m' hm' =>
        rcases List.mem_cons.mp h with rfl | behind
        · obtain ⟨same, -⟩ := reaches_of_matchAt? hm'
          rw [same]
          rfl
        · exact further behind
      case h_2 => exact further h

/-- **No two matches of a pattern begin at one place.** -/
theorem Pattern.findAll_apart (p : Pattern) (s : List Char) :
    (p.findAll s).Pairwise fun m m' => m.start ≠ m'.start := by
  suffices ∀ skip before after,
      (p.findAllFrom skip before after).Pairwise fun m m' => m.start ≠ m'.start from
    this 0 [] s
  intro skip before after
  induction after generalizing skip before with
  | nil =>
    cases skip with
    | zero =>
      rw [findAllFrom]
      cases p.matchAt? ⟨before, []⟩ with
      | none => exact .nil
      | some m => exact List.pairwise_singleton _ m
    | succ skip => exact .nil
  | cons c after ih =>
    cases skip with
    | succ skip => exact ih skip (c :: before)
    | zero =>
      rw [findAllFrom]
      split
      case h_1 m hm =>
        refine List.pairwise_cons.mpr ⟨fun m' behind same => ?_, ih _ _⟩
        have late := offset_le_of_mem_findAllFrom behind
        obtain ⟨here, -⟩ := reaches_of_matchAt? hm
        rw [← same, here, Cursor.offset, List.length_cons] at late
        exact absurd late (Nat.not_succ_le_self _)
      case h_2 => exact ih _ _

end CodeInsight.Text

namespace CodeInsight.Source

open CodeInsight.Text Pattern

/-! ## 2. The place of a declaration -/

section Place

variable {language : Language} {kind : SymbolKind} {content : List Char} {a place : Cursor}

/-- Spaces and tabs are blank, have one byte each and do not end a line. -/
theorem isIndent_plain {c : Char} (h : isIndent c = true) :
    isBlank c = true ∧ c.utf8Size = 1 ∧ (c != '\n') = true := by
  rcases Bool.or_eq_true_iff.mp h with same | same
  · rw [eq_of_beq same]
    exact ⟨rfl, rfl, rfl⟩
  · rw [eq_of_beq same]
    exact ⟨rfl, rfl, rfl⟩

/-- What is skipped of the spaces and tabs at a place. -/
theorem passes_indent (a : Cursor) :
    a.Passes (a.after.takeWhile isIndent) (a.skipWhile isIndent) ∧
      ∀ c ∈ a.after.takeWhile isIndent, isIndent c = true :=
  ⟨⟨List.takeWhile_append_dropWhile.symm, rfl⟩, fun _ hc => List.mem_takeWhile_imp hc⟩

theorem utf8Length_of_indent {t : List Char} (h : ∀ c ∈ t, isIndent c = true) :
    utf8Length t = t.length := by
  induction t with
  | nil => rfl
  | cons c t ih =>
    obtain ⟨first, rest⟩ := List.forall_mem_cons.mp h
    rw [utf8Length_cons, ih rest, (isIndent_plain first).2.1, List.length_cons, Nat.add_comm]

/-- **Where only spaces and tabs stand between the beginning of a line and a place**, the place is
    in that line, its column counts them, and from the line on the content is they and what follows
    the place. -/
theorem place_of_indent {t : List Char} (passes : a.Passes t place) (start : a.atLineStart = true)
    (indents : ∀ c ∈ t, isIndent c = true) :
    place.line = a.line ∧ place.column = t.length ∧
      (pieces '\n' a.text).drop (place.line - 1) = pieces '\n' (t ++ place.after) := by
  have noBreak : ∀ c ∈ t.reverse, (c != '\n') = true :=
    fun c hc => (isIndent_plain (indents c (List.mem_reverse.mp hc))).2.2
  have none : a.before.takeWhile (· != '\n') = [] := by
    unfold Cursor.atLineStart at start
    split at start
    case h_1 nothing => rw [nothing, List.takeWhile_nil]
    case h_2 c before some =>
      rw [some, eq_of_beq start]
      rfl
  have before : place.lineBefore = t.reverse := by
    rw [Cursor.lineBefore, passes.before, List.takeWhile_append_of_pos noBreak, none,
      List.append_nil]
  have count : t.reverse.count '\n' = 0 := by
    refine List.count_eq_zero.mpr fun there => ?_
    have apart := noBreak _ there
    simp at apart
  refine ⟨?_, ?_, ?_⟩
  · rw [Cursor.line, Cursor.line, passes.before, List.count_append, count, Nat.zero_add]
  · rw [Cursor.column, before, utf8Length_of_indent fun c hc => indents c (List.mem_reverse.mp hc),
      List.length_reverse]
  · rw [← passes.text, pieces_drop, before, List.reverse_reverse]

/-- Of a line the spaces and tabs that it begins with are those before its first other character. -/
theorem indentation_of_pieces {t s : List Char} {c : Char} (indents : ∀ c ∈ t, isIndent c = true)
    (first : s.head? = some c) (notBlank : isBlank c = false) :
    ∃ l more, pieces '\n' (t ++ s) = l :: more ∧ l.takeWhile isIndent = t := by
  obtain ⟨rest, rfl⟩ := List.head?_eq_some_iff.mp first
  obtain ⟨l, more, cut⟩ := exists_pieces '\n' (t ++ c :: rest)
  refine ⟨l, more, cut, ?_⟩
  rw [first_of_pieces cut,
    List.takeWhile_append_of_pos fun c hc => (isIndent_plain (indents c hc)).2.2,
    List.takeWhile_cons_of_pos (by simpa using not_break notBlank),
    List.takeWhile_append_of_pos indents,
    List.takeWhile_cons_of_neg (by simp [isIndent_eq_false notBlank]), List.append_nil]

/-- First words are made of word characters. -/
theorem firstWords_isWord {w : String} (hw : w ∈ firstWords language kind) :
    w.toList ≠ [] ∧ ∀ c ∈ w.toList, isWord c = true := by
  have test : (firstWords language kind).all
      (fun w => !w.toList.isEmpty && w.toList.all isWord) = true := by
    cases language <;> cases kind <;> rfl
  simpa using List.all_eq_true.mp test w hw

theorem visible_firstWords (language : Language) (kind : SymbolKind) :
    visible (firstWords language kind) = true := by
  cases language <;> cases kind <;> rfl

/-- **An extent opens as its declaration does.** -/
theorem opens_extentAt (opens : Opens (firstWords language kind) place.after) :
    Opens (firstWords language kind) (extentAt language place) := by
  obtain ⟨w, hw, rest, follows⟩ := opens
  obtain ⟨some, isWord⟩ := firstWords_isWord hw
  obtain ⟨front, last, word⟩ := (List.eq_nil_or_concat w.toList).resolve_left some
  rw [List.concat_eq_append] at word
  rw [word] at isWord follows
  have others {c : Char} (plain : Text.isWord c = false) : c ∉ front := by
    intro there
    rw [isWord c (by simp [there])] at plain
    cases plain
  have notBlank := isBlank_eq_false_of_isWord (isWord last (by simp))
  have whole : place.after = front ++ last :: rest := by simp [← follows]
  refine ⟨w, hw, ?_⟩
  rw [word, append_isPrefix_extentAt_iff notBlank whole]
  by_cases braces : language.usesBraces = true
  · exact goesOn_of_not_mem braces (others rfl) (others rfl)
  · rw [GoesOn, if_neg braces, List.count_eq_zero.mpr (others rfl)]
    simp

/-- Where a symbol is: its column counts the spaces and tabs that its line begins with, and from
    there on the content goes on with its signature, which opens with a word of its kind. Lines are
    what stands between line feeds, the first being 1. -/
structure Located (language : Language) (content : List Char) (s : Symbol) : Prop where
  line : 0 < s.line
  column : ∃ l, (pieces '\n' content)[s.line - 1]? = some l ∧
    s.column = (l.takeWhile isIndent).length
  signature : ∃ text, s.signature = some text ∧ text ≠ "" ∧
    Opens (firstWords language s.kind) text.toList ∧
    text.toList <+: (joinLines ((pieces '\n' content).drop (s.line - 1))).drop s.column

/-- The place of a declaration is behind its indentation, whatever else is blank there. -/
theorem declarationStart_of_opens {ws : List String} {m : Match}
    (opens : Opens ws (m.start.skipWhile isIndent).after) (seen : visible ws = true) :
    declarationStart m = m.start.skipWhile isIndent := by
  obtain ⟨passes, indents⟩ := passes_indent m.start
  refine passes.skipWhile (fun c hc => (isIndent_plain (indents c hc)).1) fun c hc => ?_
  obtain ⟨c', first, notBlank⟩ := opens.head seen
  rw [first] at hc
  cases hc
  exact notBlank

/-- **A match of a declaration's pattern** begins a line, and the symbol it stands for is there. -/
theorem located_of_mem_findAll {d : Pattern × SymbolKind} {m : Match}
    (hd : d ∈ declarations language) (hm : m ∈ d.1.findAll content) :
    m.start.text = content ∧ m.start.atLineStart = true ∧
      (symbolOf language d.2 m).line = m.start.line ∧
      Located language content (symbolOf language d.2 m) := by
  obtain ⟨found, same⟩ := matchAt?_of_mem_findAllFrom hm
  obtain ⟨-, fits⟩ := reaches_of_matchAt? found
  obtain ⟨start, opens⟩ := exists_opens hd fits
  have whole : m.start.text = content := same
  obtain ⟨passes, indents⟩ := passes_indent m.start
  obtain ⟨line, column, lines⟩ := place_of_indent passes start indents
  rw [whole] at lines
  have symbol : symbolOf language d.2 m =
      { symbolOf language d.2 m with
        line := (m.start.skipWhile isIndent).line
        column := (m.start.skipWhile isIndent).column
        signature := some (String.ofList (extentAt language (m.start.skipWhile isIndent))) } := by
    rw [← declarationStart_of_opens opens (visible_firstWords language d.2)]
    rfl
  rw [symbol]
  have opens' := opens_extentAt opens
  refine ⟨whole, start, line, Nat.succ_pos _, ?_, _, rfl, ?_, ?_, ?_⟩
  · obtain ⟨c, first, notBlank⟩ := opens.head (visible_firstWords language d.2)
    obtain ⟨l, more, cut, own⟩ := indentation_of_pieces indents first notBlank
    refine ⟨l, ?_, ?_⟩
    · rw [← List.head?_drop, lines, cut]
      rfl
    · rw [own]
      exact column
  · intro empty
    obtain ⟨c, some, -⟩ := opens'.head (visible_firstWords language d.2)
    rw [← String.toList_ofList (l := extentAt _ _), empty] at some
    cases some
  · rw [String.toList_ofList]
    exact opens'
  · rw [String.toList_ofList, lines, joinLines, joinWith_pieces, column, List.drop_left]
    exact extentAt_isPrefix language _

end Place

/-! ## 3. The symbols of a file -/

section Symbols

variable {language : Language} {content : List Char}

/-- Matches on one line begin at one place. -/
theorem start_eq_of_line {d d' : Pattern × SymbolKind} {m m' : Match}
    (hd : d ∈ declarations language) (hm : m ∈ d.1.findAll content)
    (hd' : d' ∈ declarations language) (hm' : m' ∈ d'.1.findAll content)
    (line : (symbolOf language d.2 m).line = (symbolOf language d'.2 m').line) :
    m.start = m'.start := by
  obtain ⟨text, start, own, -⟩ := located_of_mem_findAll hd hm
  obtain ⟨text', start', own', -⟩ := located_of_mem_findAll hd' hm'
  exact Cursor.eq_of_line (text.trans text'.symm) start start' (by rw [← own, line, own'])

/-- **No two declarations of a file are on one line.** -/
theorem lines_nodup (language : Language) (content : List Char) :
    (((declarations language).flatMap fun d =>
      (d.1.findAll content).map (symbolOf language d.2)).map (·.line)).Nodup := by
  rw [List.map_flatMap]
  refine List.nodup_flatMap.mpr ⟨fun d hd => ?_, ?_⟩
  · rw [List.map_map]
    refine List.pairwise_map.mpr ((findAll_apart d.1 content).imp_of_mem ?_)
    intro m m' hm hm' apart line
    exact apart (start_eq_of_line hd hm hd hm' line)
  · refine (declarations_exclude language).imp_of_mem ?_
    intro d d' hd hd' exclude line hline hline'
    simp only [List.map_map, List.mem_map, Function.comp_apply] at hline hline'
    obtain ⟨m, hm, rfl⟩ := hline
    obtain ⟨m', hm', same⟩ := hline'
    have start := start_eq_of_line hd' hm' hd hm same
    obtain ⟨-, fits⟩ := reaches_of_matchAt? (matchAt?_of_mem_findAllFrom hm).1
    obtain ⟨-, fits'⟩ := reaches_of_matchAt? (matchAt?_of_mem_findAllFrom hm').1
    rw [start] at fits'
    exact exclude _ _ _ fits fits'

/-- **A file's symbols are on lines of their own, in this order.** -/
theorem symbolsIn_pairwise (language : Language) (content : List Char) :
    (symbolsIn language content).Pairwise fun s s' => s.line < s'.line := by
  have sorted : (symbolsIn language content).Pairwise fun s s' => Precedes s s' = true := by
    refine List.pairwise_mergeSort (fun s s' s'' => ?_) (fun s s' => ?_) _
    · simp only [Precedes, Bool.or_eq_true, Bool.and_eq_true, decide_eq_true_eq, beq_iff_eq]
      omega
    · simp only [Precedes, Bool.or_eq_true, Bool.and_eq_true, decide_eq_true_eq, beq_iff_eq]
      omega
  have apart : (symbolsIn language content).Pairwise fun s s' => s.line ≠ s'.line :=
    List.pairwise_map.mp
      (((List.mergeSort_perm _ _).map _).nodup_iff.mpr (lines_nodup language content))
  refine (sorted.and apart).imp fun {s s'} both => ?_
  obtain ⟨before, different⟩ := both
  simp only [Precedes, Bool.or_eq_true, Bool.and_eq_true, decide_eq_true_eq, beq_iff_eq] at before
  omega

theorem located_of_mem_symbolsIn {s : Symbol} (h : s ∈ symbolsIn language content) :
    Located language content s := by
  rw [symbolsIn, List.mem_mergeSort, List.mem_flatMap] at h
  obtain ⟨d, hd, h⟩ := h
  obtain ⟨m, hm, rfl⟩ := List.mem_map.mp h
  exact (located_of_mem_findAll hd hm).2.2.2

end Symbols

end CodeInsight.Source

namespace CodeInsight

open Source

/-- **Symbols are where they are said to be, and no two on one line**: whatever patterns fit a file,
    its symbols stand on lines that grow from each to the next; each stands behind the spaces and
    tabs of its line, and there the content goes on with its signature, which opens with a word of
    its kind. -/
theorem Outline.locates_symbols {path content : String} {o : Outline}
    (h : Outline.ofSource path content = .ok o) :
    ∃ language, o.language = some language ∧
      o.symbols.Pairwise (fun s s' => s.line < s'.line) ∧
      ∀ s ∈ o.symbols, Located language content.toList s := by
  obtain ⟨language, known, symbols⟩ := Outline.symbols_of_ofSource h
  rw [symbols]
  exact ⟨language, known, symbolsIn_pairwise language content.toList,
    fun s hs => located_of_mem_symbolsIn hs⟩

/-- A class whose first word is on a line of its own, and a function in it. -/
theorem Outline.locates_symbols_broken :
    ∃ o, Outline.ofSource "a.ts" "\texport\nclass A \x7b\n  function f() \x7b\x7d\n\x7d\n" = .ok o ∧
      (o.symbols.map fun s => (s.line, s.column)) = [(1, 1), (3, 2)] ∧
      o.symbols.Pairwise (fun s s' => s.line < s'.line) := by
  let content := "\texport\nclass A \x7b\n  function f() \x7b\x7d\n\x7d\n"
  let a : Symbol :=
    ⟨.classType, "A", 1, 1, some "export\nclass A \x7b\n  function f() \x7b\x7d\n\x7d", true⟩
  let f : Symbol := ⟨.function, "f", 3, 2, some "function f() \x7b\x7d", false⟩
  have sorted : [f, a].mergeSort Precedes = [a, f] := by simp [List.mergeSort, Precedes, f, a]
  have parsed : Outline.ofSource "a.ts" content = .ok ⟨"a.ts", some .typeScript, [a, f], []⟩ := by
    rw [← sorted]
    apply Outline.ofSource_of_found <;> decide +kernel
  obtain ⟨language, -, apart, -⟩ := Outline.locates_symbols parsed
  exact ⟨_, parsed, rfl, apart⟩

end CodeInsight
