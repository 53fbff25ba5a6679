import CodeInsight.Proofs.Source.Openings
import CodeInsight.Source.Import

/-!
# What Python files import

* an import statement of Python stands on a line of its own (`statement?`), and what is read of it
  is one run without blanks: the module whose names are imported, or what stands first behind
  `import` (`ImportStatement.read`);
* where no statement breaks off at the end of its line (`Unbroken`), **the imports of a file are
  what is read of its statements**, in their order (`imports_python`);
* so of a list of modules the first is read, and with it the comma that follows it at once, if one
  does: **all imports are names of modules if and only if no comma follows a first module at once**,
  and a module behind a comma is none of them (`Outline.imports_modules`).
-/

namespace CodeInsight.Source

open CodeInsight.Text Pattern

/-! ## 1. Statements -/

/-- Whether a character is not blank. -/
def isVisible (c : Char) : Bool := !isBlank c

theorem isVisible_iff {c : Char} : isVisible c = true ↔ isBlank c = false := by simp [isVisible]

theorem notVisible_iff {c : Char} : isVisible c = false ↔ isBlank c = true := by simp [isVisible]

/-- What follows a keyword at the front of a text, and the blanks behind it. The text may end with
    the keyword, but no other character may follow it at once. -/
def behindKeyword? (w : String) (s : List Char) : Option (List Char) :=
  if w.toList <+: s ∧ (s.drop w.toList.length).head?.all isBlank then
    some (trimStart (s.drop w.toList.length))
  else none

/-- A statement that imports modules, by what is behind `import`, or names from a module. -/
inductive ImportStatement where
  | modules (list : List Char)
  | names (module : List Char)
  deriving DecidableEq

/-- What is read of a statement as its module. -/
def ImportStatement.read : ImportStatement → List Char
  | .modules list => list.takeWhile isVisible
  | .names module => module

/-- What stands behind the module that a text begins with. -/
def behindModule (r : List Char) : List Char := trimStart (r.dropWhile isVisible)

/-- The import statement that a line is. -/
def statement? (l : List Char) : Option ImportStatement :=
  let s := l.dropWhile isIndent
  match behindKeyword? "import" s with
  | some list => some (.modules list)
  | none =>
    match behindKeyword? "from" s with
    | some r =>
      (behindKeyword? "import" (behindModule r)).map fun _ => .names (r.takeWhile isVisible)
    | none => none

/-- A line does not break off where an import statement would go on. -/
def Unbroken (l : List Char) : Prop :=
  (∀ list ∈ behindKeyword? "import" (l.dropWhile isIndent), list ≠ []) ∧
    ∀ r ∈ behindKeyword? "from" (l.dropWhile isIndent),
      behindModule r ≠ [] ∧ ∀ names ∈ behindKeyword? "import" (behindModule r), names ≠ []

instance : DecidablePred Unbroken := fun _ => inferInstanceAs (Decidable (_ ∧ _))

theorem of_statement? {l : List Char} {st : ImportStatement} (h : statement? l = some st) :
    (∃ list, behindKeyword? "import" (l.dropWhile isIndent) = some list ∧ st = .modules list) ∨
      ∃ r names, behindKeyword? "from" (l.dropWhile isIndent) = some r ∧
        behindKeyword? "import" (behindModule r) = some names ∧
        st = .names (r.takeWhile isVisible) := by
  unfold statement? at h
  dsimp only at h
  split at h
  · rename_i list behind
    exact .inl ⟨list, behind, (Option.some.inj h).symm⟩
  · split at h
    · rename_i r behind
      obtain ⟨names, behind', same⟩ := Option.map_eq_some_iff.mp h
      exact .inr ⟨r, names, behind, behind', same.symm⟩
    · cases h

section Keywords

variable {w : String} {s r u : List Char}

theorem behindKeyword?_append (ends : ∀ c ∈ u.head?, isBlank c = true) :
    behindKeyword? w (w.toList ++ u) = some (trimStart u) := by
  rw [behindKeyword?, List.drop_left, if_pos]
  exact ⟨List.prefix_append _ _, (Option.all_eq_true _ _).mpr ends⟩

theorem of_behindKeyword? (h : behindKeyword? w s = some r) :
    ∃ u, s = w.toList ++ u ∧ (∀ c ∈ u.head?, isBlank c = true) ∧ r = trimStart u := by
  obtain ⟨⟨⟨u, rfl⟩, ends⟩, rest⟩ := Option.ite_none_right_eq_some.mp h
  rw [List.drop_left] at ends rest
  exact ⟨u, rfl, (Option.all_eq_true _ _).mp ends, (Option.some.inj rest).symm⟩

theorem suffix_of_behindKeyword? (h : behindKeyword? w s = some r) : r <:+ s := by
  obtain ⟨u, rfl, -, rfl⟩ := of_behindKeyword? h
  exact (trimStart_suffix u).trans (List.suffix_append _ _)

/-- Where something follows the blanks there are some, if the text begins with one. -/
theorem exists_gap (begins : ∀ c ∈ u.head?, isBlank c = true) (some : trimStart u ≠ []) :
    ∃ spaces, u = spaces ++ trimStart u ∧ spaces ≠ [] ∧ ∀ c ∈ spaces, isBlank c = true := by
  refine ⟨u.takeWhile isBlank, List.takeWhile_append_dropWhile.symm, ?_,
    fun c hc => List.mem_takeWhile_imp hc⟩
  cases u with
  | nil => exact absurd rfl some
  | cons c u =>
    rw [List.takeWhile_cons_of_pos (begins c rfl)]
    exact List.cons_ne_nil _ _

theorem head?_trimStart (s : List Char) : ∀ c ∈ (trimStart s).head?, isBlank c = false :=
  head?_dropWhile isBlank s

/-- What follows a keyword is parted from it by blanks. -/
theorem parted_of_behindKeyword? (h : behindKeyword? w s = some r) (some : r ≠ []) :
    ∃ spaces, s = w.toList ++ (spaces ++ r) ∧ spaces ≠ [] ∧ (∀ c ∈ spaces, isBlank c = true) ∧
      ∀ c ∈ r.head?, isBlank c = false := by
  obtain ⟨u, keyword, begins, rfl⟩ := of_behindKeyword? h
  obtain ⟨spaces, parted, gaps, blank⟩ := exists_gap begins some
  exact ⟨spaces, by rw [← parted]; exact keyword, gaps, blank, head?_trimStart u⟩

/-- What does not begin with a blank begins with a run without any. -/
theorem exists_word (begins : ∀ c ∈ r.head?, isBlank c = false) (some : r ≠ []) :
    r.takeWhile isVisible ≠ [] ∧ (∀ c ∈ r.takeWhile isVisible, isVisible c = true) ∧
      ∀ c ∈ (r.dropWhile isVisible).head?, isBlank c = true := by
  refine ⟨?_, fun c hc => List.mem_takeWhile_imp hc, fun c hc => ?_⟩
  · obtain ⟨c, r, rfl⟩ := List.exists_cons_of_ne_nil some
    rw [List.takeWhile_cons_of_pos (by simp [isVisible, begins c rfl])]
    exact List.cons_ne_nil _ _
  · simpa [isVisible] using head?_dropWhile isVisible r c hc

end Keywords

/-! ## 2. Where a statement is found -/

section Found

variable {a a₁ a₂ a₃ a₄ a₅ a₆ a₇ b : Cursor} {ps : Parts}
variable {α : Type} {k : Cursor → Parts → Option α}

/-- What imports names from a module. -/
def fromForm : Pattern :=
  Pattern.text "from" ++ gap ++ kept "module" (many1 isVisible) ++ gap ++
    Pattern.text "import" ++ gap ++ many1 fun c => c != '\n'

/-- What imports modules. -/
def importForm : Pattern := Pattern.text "import" ++ gap ++ kept "module" (many1 isVisible)

theorem pythonImport_eq : pythonImport = indent ++ alt fromForm importForm := rfl

theorem fromForm_reaches (h : fromForm.Reaches a b) : ∃ a₂ a₃ a₄ a₅ a₆ a₇,
    (Pattern.text "from").Reaches a a₂ ∧ gap.Reaches a₂ a₃ ∧ (many1 isVisible).Reaches a₃ a₄ ∧
      gap.Reaches a₄ a₅ ∧ (Pattern.text "import").Reaches a₅ a₆ ∧ gap.Reaches a₆ a₇ := by
  obtain ⟨a₇, h, -⟩ := exists_reaches_seq h
  obtain ⟨a₆, h, parted''⟩ := exists_reaches_seq h
  obtain ⟨a₅, h, keyword'⟩ := exists_reaches_seq h
  obtain ⟨a₄, h, parted'⟩ := exists_reaches_seq h
  obtain ⟨a₃, h, module⟩ := exists_reaches_seq h
  obtain ⟨a₂, keyword, parted⟩ := exists_reaches_seq h
  cases module with
  | kept module =>
    exact ⟨a₂, a₃, a₄, a₅, a₆, a₇, keyword, parted, module, parted', keyword', parted''⟩

theorem importForm_reaches (h : importForm.Reaches a b) :
    ∃ a₂ a₃, (Pattern.text "import").Reaches a a₂ ∧ gap.Reaches a₂ a₃ := by
  obtain ⟨a₃, h, -⟩ := exists_reaches_seq h
  obtain ⟨a₂, keyword, parted⟩ := exists_reaches_seq h
  exact ⟨a₂, a₃, keyword, parted⟩

theorem notBlank_of_text {w : String} (keyword : (Pattern.text w).Reaches a b)
    (seen : visible [w] = true) : ∀ c ∈ a.after.head?, isBlank c = false := by
  intro c first
  obtain ⟨c', is, notBlank⟩ := (opens_text keyword).head seen
  rw [is] at first
  cases first
  exact notBlank

theorem notIndent_of_text {w : String} (keyword : (Pattern.text w).Reaches a b)
    (seen : visible [w] = true) : ∀ c ∈ a.after.head?, isIndent c = false :=
  fun c first => isIndent_eq_false (notBlank_of_text keyword seen c first)

theorem notBlank_of_visible (module : (many1 isVisible).Reaches a b) :
    ∀ c ∈ a.after.head?, isBlank c = false :=
  fun c first => isVisible_iff.mp (head?_of_many1 module c first)

/-- Neither form begins with an indentation. -/
theorem search_forms_eq_none (h : ∃ c ∈ a.after.head?, isIndent c = true) :
    (alt fromForm importForm).search a ps k = none := by
  refine search_eq_none fun b reached => ?_
  obtain ⟨c, first, indents⟩ := h
  have apart : isIndent c = false := by
    cases reached with
    | altLeft fits =>
      obtain ⟨_, _, _, _, _, _, keyword, -⟩ := fromForm_reaches fits
      exact notIndent_of_text keyword rfl c first
    | altRight fits =>
      obtain ⟨_, _, keyword, -⟩ := importForm_reaches fits
      exact notIndent_of_text keyword rfl c first
  rw [apart] at indents
  cases indents

/-- A search behind an indentation goes on where one of the forms fits. -/
theorem search_indent (indented : indent.Reaches a b)
    (ends : ∀ c ∈ b.after.head?, isIndent c = false) :
    pythonImport.search a ps k = (alt fromForm importForm).search b ps k := by
  cases indented with
  | seq start spaces =>
    cases start with
    | lineStart start =>
      rw [pythonImport_eq, search_append, indent, search_append, search, if_pos start]
      exact search_many spaces ends fun _ y => search_forms_eq_none

theorem search_visible_eq_none (h : ∃ c ∈ a.after.head?, isBlank c = true) :
    (many1 isVisible).search a ps k = none := by
  obtain ⟨c, first, blank⟩ := h
  exact search_many1_eq_none ⟨c, first, notVisible_iff.mpr blank⟩

theorem search_import_eq_none (h : ∃ c ∈ a.after.head?, isBlank c = true) :
    (Pattern.text "import").search a ps k = none := by
  refine search_eq_none fun b reached => ?_
  obtain ⟨c, first, blank⟩ := h
  rw [notBlank_of_text reached rfl c first] at blank
  cases blank

theorem search_gap_eq_none (h : ∃ c ∈ a.after.head?, isVisible c = true) :
    gap.search a ps k = none := by
  obtain ⟨c, first, visible⟩ := h
  exact search_many1_eq_none ⟨c, first, isVisible_iff.mp visible⟩

/-- **Where modules are imported**, what is read goes up to the first blank. -/
theorem matchAt?_modules (indented : indent.Reaches a a₁)
    (keyword : (Pattern.text "import").Reaches a₁ a₂) (parted : gap.Reaches a₂ a₃)
    (module : (many1 isVisible).Reaches a₃ b) (ends : ∀ c ∈ b.after.head?, isBlank c = true) :
    pythonImport.matchAt? a = some ⟨a, b, [("module", a₃, b)]⟩ := by
  have other : ∀ y, ¬ fromForm.Reaches a₁ y := by
    intro y fits
    obtain ⟨_, _, _, _, _, _, keyword', -⟩ := fromForm_reaches fits
    have both := (passes_text keyword).after.symm.trans (passes_text keyword').after
    cases both
  rw [matchAt?, search_indent indented (notIndent_of_text keyword rfl), search_alt_right other,
    importForm, search_append, search_append, search_text keyword, gap,
    search_many1 parted (notBlank_of_visible module) fun _ _ => search_visible_eq_none, search_kept,
    search_many1 module fun c first => notVisible_iff.mpr (ends c first)]
  intro none
  cases none

/-- **Where names are imported from a module**, the module is read. -/
theorem matchAt?_names (indented : indent.Reaches a a₁)
    (keyword : (Pattern.text "from").Reaches a₁ a₂) (parted : gap.Reaches a₂ a₃)
    (module : (many1 isVisible).Reaches a₃ a₄) (parted' : gap.Reaches a₄ a₅)
    (keyword' : (Pattern.text "import").Reaches a₅ a₆) (parted'' : gap.Reaches a₆ a₇)
    (full : ∀ c ∈ a₇.after.head?, isBlank c = false)
    (names : (many1 fun c => c != '\n').Reaches a₇ b) (ends : ∀ c ∈ b.after.head?, c = '\n') :
    pythonImport.matchAt? a = some ⟨a, b, [("module", a₃, a₄)]⟩ := by
  have module_ends : ∀ c ∈ a₄.after.head?, isVisible c = false :=
    fun c first => notVisible_iff.mpr (head?_of_many1 parted' c first)
  have last (ps : Parts) :
      (many1 fun c => c != '\n').search a₇ ps (fun b ps => some (Match.mk a b ps)) =
        some ⟨a, b, ps⟩ :=
    search_many1 names (by simpa using ends) fun none => absurd none (Option.some_ne_none _)
  rw [matchAt?, search_indent indented (notIndent_of_text keyword rfl), search]
  -- each run goes as far as it can, since what follows it cannot begin with more of it
  have found : fromForm.search a₁ [] (fun b ps => some (Match.mk a b ps)) =
      some ⟨a, b, [("module", a₃, a₄)]⟩ := by
    simp only [fromForm, search_append, search_kept, gap]
    rw [search_text keyword,
      search_many1 parted (notBlank_of_visible module) fun _ _ => search_visible_eq_none,
      search_many1 module module_ends fun _ _ => search_gap_eq_none,
      search_many1 parted' (notBlank_of_text keyword' rfl) fun _ _ => search_import_eq_none,
      search_text keyword', search_many1 parted'' full fun none => absurd none (by simp [last]),
      last]
  rw [found]

end Found

/-! ## 3. Line by line -/

section Lines

variable {a b x y : Cursor} {m l tail r list s t u : List Char}

theorem importedBy_python (a b x y : Cursor) :
    importedBy .python ⟨a, b, [("module", x, y)]⟩ = [x.textTo y] := rfl

theorem exists_passes (h : a.after = (t ++ u) ++ tail) :
    ∃ b, a.Passes t b ∧ b.after = u ++ tail :=
  ⟨⟨t.reverse ++ a.before, u ++ tail⟩, ⟨by rw [h, List.append_assoc], rfl⟩, rfl⟩

/-- Behind the indentation of a line. -/
theorem exists_indent (start : a.atLineStart = true) (here : a.after = l ++ tail) :
    ∃ b, indent.Reaches a b ∧ a.Passes (l.takeWhile isIndent) b ∧
      b.after = l.dropWhile isIndent ++ tail := by
  rw [← List.takeWhile_append_dropWhile (p := isIndent) (l := l)] at here
  obtain ⟨b, passes, after⟩ := exists_passes here
  have indents : ∀ c ∈ l.takeWhile isIndent, isIndent c = true :=
    fun c hc => List.mem_takeWhile_imp hc
  exact ⟨b, .seq (.lineStart start) (reaches_many passes indents), passes, after⟩

/-- At the place the import of a module is found, within the line. -/
def Finds (l m : List Char) (a : Cursor) : Prop :=
  (pythonImport.matchAt? a).toList.flatMap (importedBy .python) = [m] ∧ pythonImport.StaysIn l a

theorem Finds.of_matchAt? (found : pythonImport.matchAt? a = some ⟨a, b, [("module", x, y)]⟩)
    (module : x.Passes m y) (passes : a.Passes t b) (read : t ≠ []) (here : a.after = l ++ tail)
    (behind : b.after = u ++ tail) : Finds l m a := by
  refine ⟨?_, fun found' there => ?_⟩
  · rw [found, Option.toList_some, List.flatMap_singleton, importedBy_python, module.textTo]
  · rw [found] at there
    cases there
    refine ⟨t, read, ⟨u, ?_⟩, passes⟩
    have whole := here.symm.trans passes.after
    rw [behind, ← List.append_assoc] at whole
    exact (List.append_cancel_right whole).symm

/-- A line end is a blank. -/
theorem blank_of_lineEnd (stops : ∀ c ∈ u.head?, isBlank c = true)
    (ends : ∀ c ∈ tail.head?, c = '\n') : ∀ c ∈ (u ++ tail).head?, isBlank c = true := by
  cases u with
  | nil => exact fun c first => ends c first ▸ rfl
  | cons c u => exact stops

/-- **In a line that imports modules** the first run without blanks is found. -/
theorem finds_modules (start : a.atLineStart = true) (here : a.after = l ++ tail)
    (ends : ∀ c ∈ tail.head?, c = '\n')
    (behind : behindKeyword? "import" (l.dropWhile isIndent) = some list) (some : list ≠ []) :
    Finds l (list.takeWhile isVisible) a := by
  obtain ⟨spaces, opened, gaps, blank, begins⟩ := parted_of_behindKeyword? behind some
  obtain ⟨named, visible, stops⟩ := exists_word begins some
  obtain ⟨a₁, indented, passes, after⟩ := exists_indent start here
  rw [opened] at after
  obtain ⟨a₂, keyword, after⟩ := exists_passes after
  obtain ⟨a₃, parted, after⟩ := exists_passes after
  rw [← List.takeWhile_append_dropWhile (p := isVisible) (l := list)] at after
  obtain ⟨b, module, after⟩ := exists_passes after
  have found := matchAt?_modules indented (reaches_text keyword) (reaches_many1 parted gaps blank)
    (reaches_many1 module named visible) (after ▸ blank_of_lineEnd stops ends)
  exact .of_matchAt? found module
    (passes.trans (keyword.trans (parted.trans module))) (by simp) here after

/-- **In a line that imports names from a module** the module is found. -/
theorem finds_names (start : a.atLineStart = true) (here : a.after = l ++ tail)
    (ends : ∀ c ∈ tail.head?, c = '\n') (whole : '\n' ∉ l) {names : List Char}
    (behind : behindKeyword? "from" (l.dropWhile isIndent) = some r) (more : behindModule r ≠ [])
    (behind' : behindKeyword? "import" (behindModule r) = some names) (some : names ≠ []) :
    Finds l (r.takeWhile isVisible) a := by
  have full : r ≠ [] := by
    rintro rfl
    exact more rfl
  obtain ⟨spaces, opened, gaps, blank, begins⟩ := parted_of_behindKeyword? behind full
  obtain ⟨named, visible, stops⟩ := exists_word begins full
  obtain ⟨spaces', goesOn, gaps', blank'⟩ := exists_gap stops more
  obtain ⟨spaces'', opened', gaps'', blank'', begins'⟩ := parted_of_behindKeyword? behind' some
  change _ = spaces' ++ behindModule r at goesOn
  obtain ⟨a₁, indented, passes, after⟩ := exists_indent start here
  rw [opened] at after
  obtain ⟨a₂, keyword, after⟩ := exists_passes after
  obtain ⟨a₃, parted, after⟩ := exists_passes after
  rw [← List.takeWhile_append_dropWhile (p := isVisible) (l := r)] at after
  obtain ⟨a₄, module, after⟩ := exists_passes after
  rw [goesOn] at after
  obtain ⟨a₅, parted', after⟩ := exists_passes after
  rw [opened'] at after
  obtain ⟨a₆, keyword', after⟩ := exists_passes after
  obtain ⟨a₇, parted'', after₇⟩ := exists_passes after
  have first : ∀ c ∈ a₇.after.head?, isBlank c = false := by
    obtain ⟨c, more, rfl⟩ := List.exists_cons_of_ne_nil some
    rw [after₇]
    exact begins'
  rw [← List.append_nil names] at after₇
  obtain ⟨b, list, after⟩ := exists_passes after₇
  have last : names <:+ l :=
    (suffix_of_behindKeyword? behind').trans ((trimStart_suffix _).trans
      ((List.dropWhile_suffix _).trans
        ((suffix_of_behindKeyword? behind).trans (List.dropWhile_suffix _))))
  have inLine : ∀ c ∈ names, (c != '\n') = true := by
    intro c there
    rw [bne_iff_ne]
    rintro rfl
    exact whole (last.subset there)
  have found := matchAt?_names indented (reaches_text keyword) (reaches_many1 parted gaps blank)
    (reaches_many1 module named visible) (reaches_many1 parted' gaps' blank')
    (reaches_text keyword') (reaches_many1 parted'' gaps'' blank'') first
    (reaches_many1 list some inLine) (after ▸ ends)
  refine .of_matchAt? found module (passes.trans (keyword.trans (parted.trans (module.trans
    (parted'.trans (keyword'.trans (parted''.trans list))))))) (by simp) here after

/-- A text without a line feed that begins what a line begins is part of the line. -/
theorem exists_rest (same : l ++ tail = t ++ u) (plain : '\n' ∉ t)
    (ends : ∀ c ∈ tail.head?, c = '\n') : ∃ rest, l = t ++ rest ∧ u = rest ++ tail := by
  rcases List.append_eq_append_iff.mp same with ⟨more, rfl, beyond⟩ | ⟨rest, parts, other⟩
  · cases more with
    | nil => exact ⟨[], by simp, by simpa using beyond.symm⟩
    | cons c more =>
      rw [ends c (by rw [beyond]; rfl)] at plain
      exact absurd (by simp) plain
  · exact ⟨rest, parts, other⟩

/-- So are blanks that the line goes on behind. -/
theorem exists_rest_of_blank (same : l ++ tail = t ++ u)
    (blank : ∀ c ∈ t, isBlank c = true) (some : trimStart l ≠ []) :
    ∃ rest, l = t ++ rest ∧ u = rest ++ tail := by
  rcases List.append_eq_append_iff.mp same with ⟨more, rfl, -⟩ | ⟨rest, parts, other⟩
  · refine absurd ((trimStart_eq_nil_iff l).mpr ?_) some
    exact List.all_eq_true.mpr fun c hc => blank c (List.mem_append_left _ hc)
  · exact ⟨rest, parts, other⟩

theorem head?_of_gap (parted : gap.Reaches x y) (here : x.after = u ++ tail) :
    ∀ c ∈ u.head?, isBlank c = true := by
  intro c first
  obtain ⟨rest, rfl⟩ := List.head?_eq_some_iff.mp first
  exact head?_of_many1 parted c (by rw [here]; rfl)

/-- A keyword with a blank behind it stands in the line, and the blank does or ends the line. -/
theorem behindKeyword?_of_reaches {w : String} (keyword : (Pattern.text w).Reaches a x)
    (parted : gap.Reaches x y) (here : a.after = l ++ tail) (plain : '\n' ∉ w.toList)
    (ends : ∀ c ∈ tail.head?, c = '\n') :
    ∃ u, l = w.toList ++ u ∧ x.after = u ++ tail ∧ behindKeyword? w l = some (trimStart u) := by
  obtain ⟨u, rfl, behind⟩ := exists_rest (here.symm.trans (passes_text keyword).after) plain ends
  exact ⟨u, rfl, behind, behindKeyword?_append (head?_of_gap parted behind)⟩

theorem after_of_indent (indented : indent.Reaches a b) (here : a.after = l ++ tail)
    (begins : ∀ c ∈ b.after.head?, isIndent c = false) (ends : ∀ c ∈ tail.head?, c = '\n') :
    b.after = l.dropWhile isIndent ++ tail := by
  cases indented with
  | seq start spaces =>
    cases start
    obtain ⟨t, passes, all⟩ := passes_many spaces
    have skipped : a.after.dropWhile isIndent = b.after :=
      congrArg Cursor.after (passes.skipWhile all begins)
    rw [← skipped, here, List.dropWhile_append]
    split
    case isTrue none =>
      rw [List.isEmpty_iff.mp none, List.nil_append]
      cases tail with
      | nil => rfl
      | cons c tail => exact List.dropWhile_cons_of_neg (by simp [ends c rfl, isIndent])
    case isFalse => rfl

/-- What follows a module is the other keyword, if a statement goes on so in its line. -/
theorem behindModule_of_reaches {a₂ a₃ a₄ a₅ a₆ a₇ : Cursor}
    (parted : gap.Reaches a₂ a₃) (module : (many1 isVisible).Reaches a₃ a₄)
    (parted' : gap.Reaches a₄ a₅) (keyword : (Pattern.text "import").Reaches a₅ a₆)
    (parted'' : gap.Reaches a₆ a₇) (here : a₂.after = u ++ tail)
    (more : behindModule (trimStart u) ≠ []) (ends : ∀ c ∈ tail.head?, c = '\n') :
    ∃ names, behindKeyword? "import" (behindModule (trimStart u)) = some names := by
  have full : trimStart u ≠ [] := by
    intro none
    rw [none] at more
    exact more rfl
  obtain ⟨c, t, passes, blank⟩ := passes_many1 parted
  obtain ⟨v, rfl, here₃⟩ := exists_rest_of_blank (here.symm.trans passes.after) blank full
  obtain ⟨c', t', passes', visible⟩ := passes_many1 module
  have plain : '\n' ∉ c' :: t' := fun feed => Bool.false_ne_true (visible _ feed)
  obtain ⟨q, rfl, here₄⟩ := exists_rest (here₃.symm.trans passes'.after) plain ends
  have trimmed : trimStart (c :: t ++ (c' :: t' ++ q)) = c' :: t' ++ q :=
    trimStart_append (List.all_eq_true.mpr blank) rfl (notBlank_of_visible module c' (by
      rw [passes'.after]
      rfl))
  have left : (c' :: t' ++ q).dropWhile isVisible = q :=
    (span_of_run visible fun c first => notVisible_iff.mpr (head?_of_gap parted' here₄ c first)).2
  rw [trimmed, behindModule, left] at more ⊢
  obtain ⟨c'', t'', passes'', blank''⟩ := passes_many1 parted'
  obtain ⟨z, rfl, here₅⟩ := exists_rest_of_blank (here₄.symm.trans passes''.after) blank'' more
  obtain ⟨w, rfl, -, behind⟩ := behindKeyword?_of_reaches keyword parted'' here₅ (by decide) ends
  rw [trimStart_append (List.all_eq_true.mpr blank'') rfl rfl]
  exact ⟨_, behind⟩

/-- **A line that is no import statement** and does not break off has nothing found in it. -/
theorem not_reaches (here : a.after = l ++ tail) (ends : ∀ c ∈ tail.head?, c = '\n')
    (unbroken : Unbroken l) (none : statement? l = none) (b : Cursor) :
    ¬ pythonImport.Reaches a b := by
  intro reached
  obtain ⟨a₁, indented, forms⟩ := exists_reaches_seq reached
  cases forms with
  | altRight fits =>
    obtain ⟨a₂, a₃, keyword, parted⟩ := importForm_reaches fits
    have here := after_of_indent indented here (notIndent_of_text keyword rfl) ends
    obtain ⟨u, -, -, behind⟩ := behindKeyword?_of_reaches keyword parted here (by decide) ends
    rw [statement?, behind] at none
    cases none
  | altLeft fits =>
    obtain ⟨a₂, a₃, a₄, a₅, a₆, a₇, keyword, parted, module, parted', keyword', parted''⟩ :=
      fromForm_reaches fits
    have here := after_of_indent indented here (notIndent_of_text keyword rfl) ends
    obtain ⟨u, -, after, behind⟩ := behindKeyword?_of_reaches keyword parted here (by decide) ends
    obtain ⟨more, -⟩ := unbroken.2 _ behind
    obtain ⟨z, behind'⟩ := behindModule_of_reaches parted module parted' keyword' parted'' after
      more ends
    rw [statement?, behind] at none
    dsimp only at none
    rw [behind'] at none
    split at none <;> cases none

/-- **What is found in a line** is what is read of the statement that it is. -/
theorem pythonImport_line (start : a.atLineStart = true) (here : a.after = l ++ tail)
    (ends : ∀ c ∈ tail.head?, c = '\n') (whole : '\n' ∉ l) (unbroken : Unbroken l) :
    (pythonImport.matchAt? a).toList.flatMap (importedBy .python) =
        ((statement? l).map ImportStatement.read).toList ∧
      pythonImport.StaysIn l a := by
  cases is : statement? l with
  | none =>
    rw [StaysIn, matchAt?_eq_none_iff.mpr (not_reaches here ends unbroken is)]
    exact ⟨rfl, nofun⟩
  | some st =>
    rcases of_statement? is with ⟨list, behind, rfl⟩ | ⟨r, names, behind, behind', rfl⟩
    · exact finds_modules start here ends behind (unbroken.1 list behind)
    · obtain ⟨more, full⟩ := unbroken.2 r behind
      exact finds_names start here ends whole behind more behind' (full names behind')

end Lines

/-- **The imports of a Python file** in which no statement breaks off are what is read of its
    statements. -/
theorem imports_python {content : List Char} (unbroken : ∀ l ∈ pieces '\n' content, Unbroken l) :
    imports .python content =
      ((pieces '\n' content).filterMap statement?).map fun st => String.ofList st.read := by
  have found := flatMap_findAll (p := pythonImport) rfl (importedBy .python)
    (fun l => ((statement? l).map ImportStatement.read).toList)
    fun l hl before tail start ends =>
      pythonImport_line start rfl ends (not_mem_of_mem_pieces '\n' content l hl) (unbroken l hl)
  have together : (pieces '\n' content).flatMap
        (fun l => ((statement? l).map ImportStatement.read).toList) =
      ((pieces '\n' content).filterMap statement?).map ImportStatement.read := by
    rw [← List.filterMap_eq_flatMap_toList, List.map_filterMap]
  rw [imports, importPattern, found, together, List.map_map]
  rfl

/-! ## 4. Lists of modules -/

/-- Whether a character may stand in the dotted name of a module. -/
def isDotted (c : Char) : Bool := isWord c || c == '.'

/-- A text is the dotted name of a module. -/
def IsModule (m : List Char) : Prop := m ≠ [] ∧ ∀ c ∈ m, isDotted c = true

instance : DecidablePred IsModule := fun m =>
  @instDecidableAnd _ _ _ (List.decidableBAll (isDotted · = true) m)

/-- What a list names: the first word between every two commas, which an alias may follow. -/
def listed (list : List Char) : List (List Char) :=
  (pieces ',' list).map fun item => (trimStart item).takeWhile isVisible

/-- The first module of a list has a comma right behind it. -/
def CommaAtOnce (list : List Char) : Prop := (list.dropWhile isDotted).head? = some ','

instance : DecidablePred CommaAtOnce := fun _ => inferInstanceAs (Decidable (_ = _))

/-- All that a statement names as modules are names of modules. -/
def ImportStatement.Dotted : ImportStatement → Prop
  | .modules list => ∀ m ∈ listed list, IsModule m
  | .names module => IsModule module

instance : DecidablePred ImportStatement.Dotted
  | .modules _ => inferInstanceAs (Decidable (∀ m ∈ _, _))
  | .names _ => inferInstanceAs (Decidable (IsModule _))

section Lists

variable {c : Char} {m list : List Char}

theorem isVisible_of_isDotted (h : isDotted c = true) : isVisible c = true ∧ c ≠ ',' := by
  rcases Bool.or_eq_true_iff.mp h with word | dot
  · refine ⟨by rw [isVisible, isBlank_eq_false_of_isWord word]; rfl, ?_⟩
    rintro rfl
    exact absurd word (by decide)
  · rw [eq_of_beq dot]
    exact ⟨rfl, by decide⟩

/-- **A list begins with its first module**, and a blank or a comma follows it, if anything does. -/
theorem listed_first (dotted : ∀ m ∈ listed list, IsModule m)
    (begins : ∀ c ∈ list.head?, isBlank c = false) :
    (listed list).head? = some (list.takeWhile isDotted) ∧ list.takeWhile isDotted ≠ [] ∧
      ∀ c ∈ (list.dropWhile isDotted).head?, isBlank c = true ∨ c = ',' := by
  obtain ⟨piece, others, cut⟩ := exists_pieces ',' list
  have parts : list = piece ++ list.dropWhile (· != ',') := by
    rw [first_of_pieces cut, List.takeWhile_append_dropWhile]
  have comma := head?_dropWhile (· != ',') list
  generalize list.dropWhile (· != ',') = rest at parts comma
  have solid : trimStart piece = piece := by
    cases piece with
    | nil => rfl
    | cons c piece => exact List.dropWhile_cons_of_neg (by simp [begins c (by rw [parts]; rfl)])
  have isFirst : (listed list).head? = some (piece.takeWhile isVisible) := by
    rw [listed, cut, List.map_cons, solid]
    rfl
  obtain ⟨some, letters⟩ := dotted _ (List.mem_of_mem_head? isFirst)
  have line : list =
      piece.takeWhile isVisible ++ (piece.dropWhile isVisible ++ rest) := by
    rw [← List.append_assoc, List.takeWhile_append_dropWhile]
    exact parts
  have blank := head?_dropWhile isVisible piece
  generalize piece.takeWhile isVisible = m, piece.dropWhile isVisible = q at *
  have stops : ∀ c ∈ (q ++ rest).head?, isBlank c = true ∨ c = ',' := by
    intro c first
    cases q with
    | nil => exact .inr (by simpa using comma c first)
    | cons c' q =>
      cases first
      exact .inl (notVisible_iff.mp (blank c rfl))
  obtain ⟨taken, left⟩ := span_of_run letters fun c first => by
    by_contra dotted
    obtain ⟨visible, plain⟩ := isVisible_of_isDotted (Bool.not_eq_false _ ▸ dotted)
    rcases stops c first with blank | isComma
    · rw [isVisible_iff.mp visible] at blank
      cases blank
    · exact plain isComma
  rw [isFirst, line, taken, left]
  exact ⟨rfl, some, stops⟩

theorem begins_of_statement? {l : List Char} (is : statement? l = some (.modules list)) :
    ∀ c ∈ list.head?, isBlank c = false := by
  rcases of_statement? is with ⟨_, behind, same⟩ | ⟨_, _, _, _, same⟩
  · cases same
    obtain ⟨u, -, -, rfl⟩ := of_behindKeyword? behind
    exact head?_trimStart u
  · cases same

/-- With no comma right behind it, the first module of a list is what is read. -/
theorem read_of_apart (dotted : ∀ m ∈ listed list, IsModule m)
    (begins : ∀ c ∈ list.head?, isBlank c = false) (apart : ¬ CommaAtOnce list) :
    list.takeWhile isVisible = list.takeWhile isDotted := by
  obtain ⟨-, -, stops⟩ := listed_first dotted begins
  have blank : ∀ c ∈ (list.dropWhile isDotted).head?, isVisible c = false := by
    refine fun c first => notVisible_iff.mpr ((stops c first).resolve_right ?_)
    rintro rfl
    exact apart first
  have all : ∀ c ∈ list.takeWhile isDotted, isVisible c = true :=
    fun c hc => (isVisible_of_isDotted (List.mem_takeWhile_imp hc)).1
  have taken := (span_of_run all blank).1
  rwa [List.takeWhile_append_dropWhile] at taken

/-- With a comma right behind its first module, what is read of a list is no name of a module. -/
theorem not_isModule_read (comma : CommaAtOnce list) : ¬ IsModule (list.takeWhile isVisible) := by
  intro named
  obtain ⟨rest, left⟩ := List.head?_eq_some_iff.mp comma
  have parts : list = list.takeWhile isDotted ++ ',' :: rest := by
    rw [← left, List.takeWhile_append_dropWhile]
  have all : ∀ c ∈ list.takeWhile isDotted, isVisible c = true :=
    fun c hc => (isVisible_of_isDotted (List.mem_takeWhile_imp hc)).1
  have there : ',' ∈ list.takeWhile isVisible := by
    rw [parts, List.takeWhile_append_of_pos all, List.takeWhile_cons_of_pos rfl]
    exact List.mem_append_right _ List.mem_cons_self
  exact (isVisible_of_isDotted (named.2 ',' there)).2 rfl

variable {l : List Char} {st : ImportStatement}

/-- What is read of a statement is the name of a module unless a comma stands right behind it. -/
theorem isModule_read_iff (is : statement? l = some st) (dotted : st.Dotted) :
    IsModule st.read ↔ ∀ list, st = .modules list → ¬ CommaAtOnce list := by
  cases st with
  | names module => exact ⟨nofun, fun _ => dotted⟩
  | modules list =>
    constructor
    · rintro named _ ⟨⟩ comma
      exact not_isModule_read comma named
    · intro apart
      have begins := begins_of_statement? is
      obtain ⟨-, some, -⟩ := listed_first dotted begins
      rw [ImportStatement.read, read_of_apart dotted begins (apart list rfl)]
      exact ⟨some, fun c hc => List.mem_takeWhile_imp hc⟩

/-- Which module is read of a statement. -/
theorem read_eq_iff (is : statement? l = some st) (dotted : st.Dotted) (named : IsModule m) :
    st.read = m ↔ st = .names m ∨
      ∃ list, st = .modules list ∧ (listed list).head? = some m ∧ ¬ CommaAtOnce list := by
  cases st with
  | names module => simp [ImportStatement.read]
  | modules list =>
    have begins := begins_of_statement? is
    obtain ⟨isFirst, -, -⟩ := listed_first dotted begins
    constructor
    · rintro rfl
      have apart : ¬ CommaAtOnce list := fun comma => not_isModule_read comma named
      refine .inr ⟨list, rfl, ?_, apart⟩
      rw [isFirst, ImportStatement.read, read_of_apart dotted begins apart]
    · rintro (same | ⟨_, same, first, apart⟩)
      · cases same
      · cases same
        rw [ImportStatement.read, read_of_apart dotted begins apart]
        exact Option.some.inj (isFirst.symm.trans first)

end Lists

end CodeInsight.Source

namespace CodeInsight

open CodeInsight.Text CodeInsight.Source

/-- An outline holds what the content imports in the path's language. -/
theorem Outline.imports_of_ofSource {path content : String} {o : Outline}
    (h : Outline.ofSource path content = .ok o) :
    ∃ language, o.language = some language ∧
      o.imports = Source.imports language content.toList := by
  unfold Outline.ofSource at h
  split at h
  case h_1 => cases h
  case h_2 language _ =>
    dsimp only at h
    split at h
    case isTrue => cases h
    case isFalse =>
      cases h
      exact ⟨language, rfl, rfl⟩

/-- **What Python files import.** For every Python file in which no import statement breaks off at
    the end of its line, and all name modules by dotted names:
    * the imports are what is read of the statements, one of each, in their order;
    * all of them are names of modules if and only if in no list of modules a comma stands right
      behind the first;
    * a module is among them exactly if names are imported from it, or it is the first of a list and
      no comma stands right behind it. -/
theorem Outline.imports_modules {path content : String} {o : Outline}
    (parsed : Outline.ofSource path content = .ok o) (isPython : o.language = some .python)
    (unbroken : ∀ l ∈ pieces '\n' content.toList, Unbroken l)
    (dotted : ∀ l ∈ pieces '\n' content.toList, ∀ st ∈ statement? l, st.Dotted) :
    let statements := (pieces '\n' content.toList).filterMap statement?
    o.imports = statements.map (fun st => String.ofList st.read) ∧
      ((∀ e ∈ o.imports, IsModule e.toList) ↔
        ∀ list, .modules list ∈ statements → ¬ CommaAtOnce list) ∧
      ∀ m, IsModule m → (String.ofList m ∈ o.imports ↔ .names m ∈ statements ∨
        ∃ list, .modules list ∈ statements ∧ (listed list).head? = some m ∧
          ¬ CommaAtOnce list) := by
  intro statements
  obtain ⟨language, same, imported⟩ := imports_of_ofSource parsed
  obtain rfl : Language.python = language := Option.some.inj (isPython.symm.trans same)
  rw [imports_python unbroken] at imported
  have each : ∀ st ∈ statements, ∃ l, statement? l = some st ∧ st.Dotted := by
    intro st hst
    obtain ⟨l, hl, is⟩ := List.mem_filterMap.mp hst
    exact ⟨l, is, dotted l hl st is⟩
  rw [imported]
  refine ⟨rfl, ?_, fun m named => ?_⟩
  · simp only [List.forall_mem_map, String.toList_ofList]
    constructor
    · intro all list hst
      obtain ⟨l, is, dotted⟩ := each _ hst
      exact (isModule_read_iff is dotted).mp (all _ hst) list rfl
    · intro apart st hst
      obtain ⟨l, is, dotted⟩ := each st hst
      exact (isModule_read_iff is dotted).mpr fun list same => apart list (same ▸ hst)
  · simp only [List.mem_map, String.ofList_inj]
    constructor
    · rintro ⟨st, hst, read⟩
      obtain ⟨l, is, dotted⟩ := each st hst
      rcases (read_eq_iff is dotted named).mp read with rfl | ⟨list, rfl, rest⟩
      · exact .inl hst
      · exact .inr ⟨list, hst, rest⟩
    · rintro (hst | ⟨list, hst, rest⟩)
      · exact ⟨_, hst, rfl⟩
      · obtain ⟨l, is, dotted⟩ := each _ hst
        exact ⟨_, hst, (read_eq_iff is dotted named).mpr (.inr ⟨list, rfl, rest⟩)⟩

/-- In three statements, one in each form and the third indented, a blank follows the first of two
    modules before the comma does. -/
theorem Outline.imports_modules_three :
    let content := "import os , sys\nfrom typing import List\n\timport re.x\n"
    let o : Outline := ⟨"a.py", some .python, [], ["os", "typing", "re.x"]⟩
    Outline.ofSource "a.py" content = .ok o ∧ (∀ e ∈ o.imports, IsModule e.toList) ∧
      String.ofList "os".toList ∈ o.imports := by
  intro content o
  have parsed : Outline.ofSource "a.py" content = .ok o := by
    decide +kernel
  have unbroken : ∀ l ∈ pieces '\n' content.toList, Unbroken l := by
    decide +kernel
  have dotted : ∀ l ∈ pieces '\n' content.toList, ∀ st ∈ statement? l, st.Dotted := by
    decide +kernel
  have statements : (pieces '\n' content.toList).filterMap statement? =
      [.modules "os , sys".toList, .names "typing".toList, .modules "re.x".toList] := by
    decide +kernel
  obtain ⟨-, modules, named⟩ := Outline.imports_modules parsed rfl unbroken dotted
  rw [statements] at modules named
  refine ⟨parsed, modules.mpr fun list there => ?_, (named "os".toList (by decide +kernel)).mpr ?_⟩
  · simp only [List.mem_cons, ImportStatement.modules.injEq, reduceCtorEq, List.not_mem_nil,
      or_false, false_or] at there
    rcases there with rfl | rfl
    · decide +kernel
    · decide +kernel
  · exact .inr ⟨"os , sys".toList, List.mem_cons_self, by decide +kernel, by decide +kernel⟩

/-- **A comma is read with the module before it, and the module behind it is left out**: of
    `import os, sys`, which names `os` and `sys`, the one import is `os,`. -/
theorem Outline.imports_comma :
    let content := "import os, sys\n"
    let o : Outline := ⟨"a.py", some .python, [], ["os,"]⟩
    Outline.ofSource "a.py" content = .ok o ∧
      (pieces '\n' content.toList).filterMap statement? = [.modules "os, sys".toList] ∧
      listed "os, sys".toList = ["os".toList, "sys".toList] ∧
      (∀ m ∈ listed "os, sys".toList, IsModule m ∧ String.ofList m ∉ o.imports) ∧
      ∃ e ∈ o.imports, ¬ IsModule e.toList := by
  intro content o
  have parsed : Outline.ofSource "a.py" content = .ok o := by
    decide +kernel
  exact ⟨parsed, by decide +kernel, by decide +kernel, by decide +kernel, by decide +kernel⟩

end CodeInsight
