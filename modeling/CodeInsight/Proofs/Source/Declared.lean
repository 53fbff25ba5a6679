import CodeInsight.Proofs.Text.Matching
import CodeInsight.Source.Outline
import Mathlib.Data.List.TakeWhile

/-!
# Where a symbol is declared

* every pattern of a declaration begins at a line's start and has one name in it, with something
  that is not blank before it (`exists_around_name`);
* `Declared` ties a symbol to the match it stands for: what was read from the symbol's place to its
  name, and all that follows the name. **From a symbol's place on the content is what was read, the
  name and the rest** (`Declared.exists_place`), and every symbol is declared somewhere
  (`exists_declared`);
* in a script and in Python no parenthesis is opened between the place and the name of a function
  whose name is followed by one (`Declared.paren_not_mem`).
-/

namespace CodeInsight.Source

open CodeInsight.Text Pattern

/-! ## 1. The patterns of declarations -/

theorem solid_text {s : String} {c : Char} {cs : List Char} (chars : s.toList = c :: cs)
    (notBlank : isBlank c = false) : (Pattern.text s).Solid := by
  rw [Pattern.text, chars]
  refine .inl fun ch same => ?_
  rw [eq_of_beq same]
  exact notBlank

/-- The keyword of a declaration stands before its name. -/
theorem exists_around_name {language : Language} {d : Pattern × SymbolKind}
    (h : d ∈ declarations language) :
    ∃ front behind, d.1.around "name" = some (front, word, behind) ∧ front.beginsLine = true ∧
      front.Solid := by
  have keyword {s : String} {c : Char} {cs : List Char} := @solid_text s c cs
  cases language with
  | typeScript =>
    simp only [declarations, List.mem_cons, List.not_mem_nil, or_false] at h
    rcases h with rfl | rfl | rfl | rfl
    · exact ⟨_, _, rfl, rfl, .inl (.inl (.inl (.inl (.inr (keyword rfl rfl)))))⟩
    · refine ⟨_, _, rfl, rfl, .inl (.inl (.inr ?_))⟩
      exact ⟨keyword rfl rfl, keyword rfl rfl, keyword rfl rfl⟩
    · exact ⟨_, _, rfl, rfl, .inl (.inl (.inr (keyword rfl rfl)))⟩
    · exact ⟨_, _, rfl, rfl, .inl (.inl (.inr (keyword rfl rfl)))⟩
  | python =>
    simp only [declarations, List.mem_cons, List.not_mem_nil, or_false] at h
    rcases h with rfl | rfl
    · exact ⟨_, _, rfl, rfl, .inl (.inl (.inr (keyword rfl rfl)))⟩
    · exact ⟨_, _, rfl, rfl, .inl (.inl (.inr (keyword rfl rfl)))⟩
  | rust =>
    simp only [declarations, List.mem_cons, List.not_mem_nil, or_false] at h
    rcases h with rfl | rfl | rfl
    · exact ⟨_, _, rfl, rfl, .inl (.inl (.inr (keyword rfl rfl)))⟩
    · exact ⟨_, _, rfl, rfl, .inl (.inl (.inr ⟨keyword rfl rfl, keyword rfl rfl⟩))⟩
    · exact ⟨_, _, rfl, rfl, .inl (.inl (.inr (keyword rfl rfl)))⟩
  | go =>
    simp only [declarations, List.mem_cons, List.not_mem_nil, or_false] at h
    rcases h with rfl | rfl | rfl
    · exact ⟨_, _, rfl, rfl, .inl (.inl (.inl (.inr (keyword rfl rfl))))⟩
    · exact ⟨_, _, rfl, rfl, .inl (.inl (.inr (keyword rfl rfl)))⟩
    · exact ⟨_, _, rfl, rfl, .inl (.inl (.inr (keyword rfl rfl)))⟩

/-! ## 2. A symbol and its declaration -/

/-- `Declared language content s head rest`: the symbol stands for a match of one of the language's
    patterns in the content, `head` is what was read from the symbol's place to its name, and `rest`
    is all that follows the name. -/
def Declared (language : Language) (content : List Char) (s : Symbol) (head rest : List Char) :
    Prop :=
  ∃ d ∈ declarations language, ∃ m ∈ d.1.findAll content, ∃ x y,
    m.span? "name" = some (x, y) ∧ s = symbolOf language d.2 m ∧
      head = (declarationStart m).textTo x ∧ rest = y.after

instance (language : Language) (content : List Char) (s : Symbol) (head rest : List Char) :
    Decidable (Declared language content s head rest) :=
  decidable_of_iff (∃ d ∈ declarations language, ∃ m ∈ d.1.findAll content,
      ∃ span ∈ (m.span? "name").toList, s = symbolOf language d.2 m ∧
        head = (declarationStart m).textTo span.1 ∧ rest = span.2.after) <| by
    simp only [Declared, Option.mem_toList, Prod.exists]

/-- Every symbol is declared somewhere. -/
theorem exists_declared {language : Language} {content : List Char} {s : Symbol}
    (h : s ∈ symbolsIn language content) : ∃ head rest, Declared language content s head rest := by
  rw [symbolsIn, List.mem_mergeSort, List.mem_flatMap] at h
  obtain ⟨d, hd, h⟩ := h
  obtain ⟨m, hm, rfl⟩ := List.mem_map.mp h
  obtain ⟨front, behind, cut, -, -⟩ := exists_around_name hd
  obtain ⟨-, x, y, kept, -, -, -⟩ := around_of_mem_findAll hm cut
  exact ⟨_, _, d, hd, m, hm, x, y, kept, rfl, rfl, rfl⟩

section Declared

variable {language : Language} {content head rest : List Char} {s : Symbol}

/-- What a line holds before the blanks that follow its beginning is nothing. -/
theorem allBlank_lineBefore {a : Cursor} (start : a.atLineStart = true) :
    allBlank (a.skipWhile isBlank).lineBefore = true := by
  have nothing : a.before.takeWhile (· != '\n') = [] := by
    unfold Cursor.atLineStart at start
    split at start
    case h_1 none => rw [none, List.takeWhile_nil]
    case h_2 c before some =>
      rw [some, eq_of_beq start]
      rfl
  refine List.all_eq_true.mpr fun c there => ?_
  have skipped : c ∈ (a.after.takeWhile isBlank).reverse := by
    rw [Cursor.lineBefore, Cursor.skipWhile, List.takeWhile_append, nothing] at there
    split at there
    case isTrue => simpa using there
    case isFalse => exact List.takeWhile_subset _ there
  exact List.mem_takeWhile_imp (List.mem_reverse.mp skipped)

/-- The blanks in front of a declaration end before its name, since its keyword stands there: so
    what is read from its place on is what is read from the match's beginning, less the blanks. -/
theorem passes_declarationStart {m : Match} {x : Cursor} {t : List Char}
    (h : m.start.Passes t x) (solid : ∃ c ∈ t, isBlank c = false) :
    (declarationStart m).Passes (trimStart t) x := by
  have split : t.takeWhile isBlank ++ trimStart t = t := List.takeWhile_append_dropWhile
  have left : trimStart t ≠ [] := by
    rw [Ne, trimStart_eq_nil_iff]
    intro blank
    obtain ⟨c, there, notBlank⟩ := solid
    rw [List.all_eq_true.mp blank c there] at notBlank
    cases notBlank
  have shorter : (t.takeWhile isBlank).length ≠ t.length := by
    have := congrArg List.length split
    rw [List.length_append] at this
    have := List.length_pos_iff.mpr left
    omega
  have ends : ¬ (t.dropWhile isBlank).isEmpty = true := List.isEmpty_iff.not.mpr left
  constructor
  · change m.start.after.dropWhile isBlank = _
    rw [h.after, List.dropWhile_append, if_neg ends]
    rfl
  · change _ = _ ++ ((m.start.after.takeWhile isBlank).reverse ++ m.start.before)
    rw [h.before, h.after, List.takeWhile_append, if_neg shorter, ← List.append_assoc,
      ← List.reverse_append, split]

/-- **A symbol's place**: from there on the content is what was read up to the name, the name and
    the rest; before it in its line there are only blanks, and from it the symbol's signature is
    taken. -/
theorem Declared.exists_place (h : Declared language content s head rest) :
    ∃ place : Cursor, place.text = content ∧ place.after = head ++ s.name.toList ++ rest ∧
      allBlank place.lineBefore = true ∧ s.line = place.line ∧ s.column = place.column ∧
      s.signatureText.toList = extentAt language place := by
  obtain ⟨d, hd, m, hm, x, y, kept, rfl, rfl, rfl⟩ := h
  obtain ⟨front, behind, cut, begins, solid⟩ := exists_around_name hd
  obtain ⟨whole, x', y', kept', before, name, -⟩ := around_of_mem_findAll hm cut
  obtain ⟨rfl, rfl⟩ : x' = x ∧ y' = y := by
    simpa [kept'] using kept
  have reads := passes_declarationStart before.passes (exists_solid before solid)
  have named : (symbolOf language d.2 m).name.toList = x'.textTo y' := by
    simp [symbolOf, Match.part?, kept]
  refine ⟨declarationStart m, ?_, ?_, ?_, rfl, rfl, String.toList_ofList⟩
  · rw [← whole]
    exact Cursor.text_skipWhile _ _
  · rw [named, reads.textTo, reads.after, name.passes.after, List.append_assoc]
  · exact allBlank_lineBefore (atLineStart_of_beginsLine before begins)

/-! ## 3. What is opened before a name -/

theorem exists_reaches_left {p q : Pattern} {a c : Cursor} (h : (Pattern.seq p q).Reaches a c) :
    ∃ b, p.Reaches a b := by
  cases h with
  | seq hp _ => exact ⟨_, hp⟩

theorem head?_of_text {s : String} {c : Char} {cs : List Char} {a b : Cursor}
    (chars : s.toList = c :: cs) (h : (Pattern.text s).Reaches a b) : a.after.head? = some c := by
  rw [Pattern.text, chars] at h
  cases h with
  | seq first _ =>
    cases first with
    | one step same =>
      rw [(Cursor.passes_of_step? step).after, ← eq_of_beq same]
      rfl

/-- Blanks in front of what does not begin with one are taken off, and no more. -/
theorem trimStart_append {gap t : List Char} {c : Char} (blank : allBlank gap = true)
    (first : t.head? = some c) (notBlank : isBlank c = false) : trimStart (gap ++ t) = t := by
  rw [trimStart, List.dropWhile_append_of_pos (List.all_eq_true.mp blank)]
  cases t with
  | nil => cases first
  | cons c' t =>
    cases first
    exact List.dropWhile_cons_of_neg (by simp [notBlank])

/-- Where a type or a value is given to a variable, no parenthesis follows its name. -/
theorem not_paren_of_given {gap after : List Char} {y z : Cursor}
    (h : (((Pattern.nothing ++ blanks) ++ typeAnnotation) ++ Pattern.text "=").Reaches y z)
    (blank : allBlank gap = true) : y.after ≠ gap ++ '(' :: after := by
  obtain ⟨y₁, spaces, c, first, given⟩ : ∃ y₁, blanks.Reaches y y₁ ∧
      ∃ c, y₁.after.head? = some c ∧ (c = ':' ∨ c = '=') := by
    cases h with
    | seq front equals =>
      cases front with
      | seq front annotation =>
        cases front with
        | seq none spaces =>
          cases none
          refine ⟨_, spaces, ?_⟩
          cases annotation with
          | altLeft typed =>
            obtain ⟨_, colon⟩ := exists_reaches_left typed
            exact ⟨':', head?_of_text rfl colon, .inl rfl⟩
          | altRight untyped =>
            cases untyped
            exact ⟨'=', head?_of_text rfl equals, .inr rfl⟩
  intro same
  cases spaces with
  | run spaces =>
    obtain ⟨t, passes, all⟩ := Cursor.passes_of_mem_reach spaces
    have notBlank : isBlank c = false := by
      rcases given with rfl | rfl <;> rfl
    have trimmed := trimStart_append (List.all_eq_true.mpr all) first notBlank
    rw [← passes.after, same, trimStart_append blank rfl rfl] at trimmed
    rw [← trimmed] at first
    cases first
    rcases given with h | h <;> cases h

/-- In a script and in Python what stands before the name of a function holds no parenthesis, or a
    type or a value is given to the name. -/
theorem avoids_paren_or_given {d : Pattern × SymbolKind} {front behind : Pattern}
    (h : d ∈ declarations language) (isFunction : d.2 = .function)
    (plain : language = .typeScript ∨ language = .python)
    (cut : d.1.around "name" = some (front, word, behind)) :
    front.avoids '(' = true ∨ ∀ y z, behind.Reaches y z →
      ∃ z', (((Pattern.nothing ++ blanks) ++ typeAnnotation) ++ Pattern.text "=").Reaches y z' := by
  rcases plain with rfl | rfl
  · simp only [declarations, List.mem_cons, List.not_mem_nil, or_false] at h
    rcases h with rfl | rfl | rfl | rfl
    · obtain rfl := congrArg Prod.fst (Option.some.inj cut)
      exact .inl rfl
    · obtain rfl := congrArg (·.2.2) (Option.some.inj cut)
      refine .inr fun y z h => ?_
      iterate 6 obtain ⟨_, h⟩ := exists_reaches_left h
      exact ⟨_, h⟩
    · cases isFunction
    · cases isFunction
  · simp only [declarations, List.mem_cons, List.not_mem_nil, or_false] at h
    rcases h with rfl | rfl
    · obtain rfl := congrArg Prod.fst (Option.some.inj cut)
      exact .inl rfl
    · cases isFunction

/-- **In a script and in Python no parenthesis is opened between the place and the name** of a
    function whose name is followed by one. -/
theorem Declared.paren_not_mem (h : Declared language content s head rest)
    (isFunction : s.kind = .function) (plain : language = .typeScript ∨ language = .python)
    {gap after : List Char} (blank : allBlank gap = true) (follows : rest = gap ++ '(' :: after) :
    '(' ∉ head := by
  obtain ⟨d, hd, m, hm, x, y, kept, rfl, rfl, rfl⟩ := h
  obtain ⟨front, behind, cut, -, solid⟩ := exists_around_name hd
  obtain ⟨-, x', y', kept', before, -, after_⟩ := around_of_mem_findAll hm cut
  obtain ⟨rfl, rfl⟩ : x' = x ∧ y' = y := by
    simpa [kept'] using kept
  rcases avoids_paren_or_given hd isFunction plain cut with avoids | given
  · rw [(passes_declarationStart before.passes (exists_solid before solid)).textTo]
    intro there
    exact not_mem_of_avoids before avoids ((trimStart_suffix _).subset there)
  · obtain ⟨_, given⟩ := given _ _ after_
    exact absurd follows (not_paren_of_given given blank)

end Declared

end CodeInsight.Source

namespace CodeInsight

/-- An outline holds the symbols that the content declares in the path's language. -/
theorem Outline.symbols_of_ofSource {path content : String} {o : Outline}
    (h : Outline.ofSource path content = .ok o) :
    ∃ language, o.language = some language ∧
      o.symbols = Source.symbolsIn language content.toList := by
  unfold Outline.ofSource at h
  split at h
  case h_1 => cases h
  case h_2 language _ =>
    dsimp only at h
    split at h
    case isTrue => cases h
    case isFalse =>
      cases h
      exact ⟨language, rfl, rfl⟩

/-- Where a path's language is known and the content is text, the outline's symbols are what the
    language's patterns find, sorted by place. -/
theorem Outline.ofSource_of_found {path content : String} {language : Language}
    {found : List Symbol} {named : List String} (known : Language.detect path = .ok language)
    (text : content.toList.contains '\x00' = false)
    (all : ((Source.declarations language).flatMap fun d =>
      (d.1.findAll content.toList).map (Source.symbolOf language d.2)) = found)
    (imported : Source.imports language content.toList = named) :
    Outline.ofSource path content =
      .ok ⟨path, some language, found.mergeSort Source.Precedes, named⟩ := by
  subst all imported
  simp only [Outline.ofSource, known, text]
  rfl

end CodeInsight
