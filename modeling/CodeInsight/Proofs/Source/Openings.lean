import CodeInsight.Proofs.Source.Declared
import CodeInsight.Proofs.Text.Searches
import Mathlib.Data.List.Forall2

/-!
# How declarations open

* a text `Opens` with one of several words; lists of words of which none begins a word of the other
  (`apart`) never open one text, so words tell what a text begins with;
* behind its indentation a declaration opens with one of the `firstWords` of its kind
  (`exists_opens`);
* `deciding` reads over the words that more than one pattern may begin with, and there **each
  pattern of a language has words of its own** (`declarations_opensAt`, `declarationWords_apart`),
  so at one line start at most one of them fits (`declarations_exclude`).
-/

namespace CodeInsight.Text

/-- Blanks are no word characters. -/
theorem isBlank_eq_false_of_isWord {c : Char} (h : isWord c = true) : isBlank c = false := by
  have codes : ∀ n ∈ [9, 10, 11, 12, 13, 32, 0x85, 0xA0, 0x1680, 0x2000, 0x2001, 0x2002, 0x2003,
      0x2004, 0x2005, 0x2006, 0x2007, 0x2008, 0x2009, 0x200A, 0x2028, 0x2029, 0x202F, 0x205F,
      0x3000], isWord (Char.ofNat n) = false := by
    decide +kernel
  by_contra blank
  rw [Bool.not_eq_false] at blank
  have code := codes c.toNat <| by
    simp [isBlank] at blank
    simp
    omega
  rw [Char.ofNat_toNat, h] at code
  cases code

end CodeInsight.Text

namespace CodeInsight.Source

open CodeInsight.Text Pattern

/-! ## 1. Words that open a text -/

/-- The text begins with one of the words. -/
def Opens (ws : List String) (t : List Char) : Prop := ∃ w ∈ ws, w.toList <+: t

/-- Whether no word of the one list begins a word of the other. -/
def apart (ws vs : List String) : Bool :=
  ws.all fun w => vs.all fun v => !w.toList.isPrefixOf v.toList && !v.toList.isPrefixOf w.toList

/-- Whether each word begins with something that is not blank. -/
def visible (ws : List String) : Bool := ws.all fun w => w.toList.head?.any fun c => !isBlank c

section Words

variable {ws vs : List String} {w : String} {t : List Char} {a b c : Cursor}

/-- **No text opens with words that are apart.** -/
theorem Opens.not_opens (h : Opens ws t) (separate : apart ws vs = true) : ¬ Opens vs t := by
  rintro ⟨v, hv, begins'⟩
  obtain ⟨w, hw, begins⟩ := h
  have both := List.all_eq_true.mp (List.all_eq_true.mp separate w hw) v hv
  simp only [Bool.and_eq_true, Bool.not_eq_true', ← Bool.not_eq_true, List.isPrefixOf_iff_prefix]
    at both
  rcases List.prefix_or_prefix_of_prefix begins begins' with first | second
  · exact both.1 first
  · exact both.2 second

theorem Opens.head (h : Opens ws t) (seen : visible ws = true) :
    ∃ c, t.head? = some c ∧ isBlank c = false := by
  obtain ⟨w, hw, begins⟩ := h
  have first := List.all_eq_true.mp seen w hw
  obtain ⟨rest, rfl⟩ := begins
  cases chars : w.toList with
  | nil => simp [chars] at first
  | cons c cs => exact ⟨c, rfl, by simpa [chars] using first⟩

theorem Opens.mono (h : Opens ws t) (more : ∀ w ∈ ws, w ∈ vs) : Opens vs t := by
  obtain ⟨w, hw, begins⟩ := h
  exact ⟨w, more w hw, begins⟩

theorem opens_text (h : (Pattern.text w).Reaches a b) : Opens [w] a.after :=
  ⟨w, List.mem_singleton_self w, ⟨b.after, (passes_text h).after.symm⟩⟩

/-- What is behind a word and the blanks that follow it, if the text begins with the word. -/
def behindWord (w : String) (t : List Char) : List Char :=
  if w.toList.isPrefixOf t then trimStart (t.drop w.toList.length) else t

theorem trimStart_gap (h : gap.Reaches a b) (opens : Opens ws b.after) (seen : visible ws = true) :
    trimStart a.after = b.after := by
  obtain ⟨c, t, passes, blank⟩ := passes_many1 h
  obtain ⟨first, is, notBlank⟩ := opens.head seen
  rw [passes.after]
  exact trimStart_append (List.all_eq_true.mpr blank) is notBlank

/-- **A modifier is read over**, whether it is there or not. -/
theorem behindWord_of_modifier (h : (modifier w).Reaches a b) (opens : Opens ws b.after)
    (seen : visible ws = true) (separate : apart [w] ws = true) :
    behindWord w a.after = b.after := by
  cases h with
  | altLeft there =>
    cases there with
    | seq word gap =>
      have passes := passes_text word
      rw [behindWord, passes.after, if_pos (by simp [List.isPrefixOf_iff_prefix]), List.drop_left]
      exact trimStart_gap gap opens seen
  | altRight none =>
    cases none
    rw [behindWord, if_neg]
    intro begins
    have word : Opens [w] a.after := ⟨w, by simp, List.isPrefixOf_iff_prefix.mp begins⟩
    exact word.not_opens separate opens

/-- A modifier that is not there. -/
theorem modifier_none (w : String) (a : Cursor) : (modifier w).Reaches a a :=
  .altRight (.nothing a)

theorem opens_modifier (h : (modifier w).Reaches a b) (opens : Opens ws b.after) :
    Opens (w :: ws) a.after := by
  cases h with
  | altLeft there =>
    obtain ⟨_, word⟩ := exists_reaches_left there
    exact (opens_text word).mono (by simp)
  | altRight none =>
    cases none
    exact opens.mono (by simp +contextual)

theorem opens_anyText (h : (anyText ws).Reaches a b) (some : ws ≠ []) : Opens ws a.after := by
  induction ws with
  | nil => exact absurd rfl some
  | cons w ws ih =>
    cases ws with
    | nil => exact opens_text h
    | cons w' ws =>
      cases h with
      | altLeft first => exact (opens_text first).mono (by simp)
      | altRight rest => exact (ih rest (by simp)).mono (by simp +contextual)

end Words

/-! ## 2. Where the patterns of a language part -/

/-- Whether a character can indent a declaration. -/
def isIndent (c : Char) : Bool := c == ' ' || c == '\t'

/-- What is behind a list in parentheses, if the text begins with one. -/
def behindParenthesised : List Char → List Char
  | '(' :: rest => (rest.dropWhile fun c => c != ')').drop 1
  | t => t

/-- What is behind a Rust visibility and the blanks that follow it, if the text begins with one. -/
def behindVisibility (t : List Char) : List Char :=
  if "pub".toList.isPrefixOf t then trimStart (behindParenthesised (t.drop "pub".toList.length))
  else t

/-- What is behind the name of a Go type and the blanks that follow it. -/
def behindTypeName (t : List Char) : List Char :=
  trimStart ((behindWord "type" t).dropWhile isWord)

/-- Where the first word stands that only one pattern of the language can have there. -/
def deciding (language : Language) (t : List Char) : List Char :=
  match language with
  | .typeScript => behindWord "default" (behindWord "export" t)
  | .python => t
  | .rust => behindVisibility t
  | .go => if "func".toList.isPrefixOf t then t else behindTypeName t

/-- What is known of a place where a pattern fits: a line begins there, and behind its indentation a
    declaration opens with one of the first words, and where the patterns part with one of the
    pattern's own. -/
structure OpensAt (language : Language) (first own : List String) (a : Cursor) : Prop where
  line : a.atLineStart = true
  first : Opens first (a.skipWhile isIndent).after
  own : Opens own (deciding language (a.skipWhile isIndent).after)

section Patterns

variable {a b c : Cursor} {ws : List String} {keyword : String}

theorem isIndent_eq_false {c : Char} (h : isBlank c = false) : isIndent c = false := by
  by_contra indents
  rw [Bool.not_eq_false] at indents
  rcases Bool.or_eq_true_iff.mp indents with same | same
  · rw [eq_of_beq same] at h
    cases h
  · rw [eq_of_beq same] at h
    cases h

theorem skipWhile_of_opens {t : List Char} (passes : a.Passes t b)
    (all : ∀ c ∈ t, isIndent c = true) (opens : Opens ws b.after) (seen : visible ws = true) :
    a.skipWhile isIndent = b := by
  refine passes.skipWhile all fun c first => ?_
  obtain ⟨c', is, notBlank⟩ := opens.head seen
  rw [is] at first
  cases first
  exact isIndent_eq_false notBlank

theorem indent_reaches (h : indent.Reaches a b) (opens : Opens ws b.after)
    (seen : visible ws = true) : a.atLineStart = true ∧ a.skipWhile isIndent = b := by
  cases h with
  | seq start spaces =>
    cases start with
    | lineStart begins =>
      obtain ⟨t, passes, all⟩ := passes_many spaces
      exact ⟨begins, skipWhile_of_opens passes all opens seen⟩

/-! ### Scripts -/

theorem opensAt_script {own : List String} {a₁ a₂ a₃ : Cursor} (indented : indent.Reaches a a₁)
    (exported : (modifier "export").Reaches a₁ a₂) (isDefault : (modifier "default").Reaches a₂ a₃)
    (own_ : Opens own a₃.after) (first : Opens ws a₁.after) (seen : visible ws = true)
    (seen' : visible own = true) (separate : apart ["default"] own = true)
    (separate' : apart ["export"] ("default" :: own) = true) : OpensAt .typeScript ws own a := by
  obtain ⟨begins, skipped⟩ := indent_reaches indented first seen
  have byDefault : Opens ("default" :: own) a₂.after := opens_modifier isDefault own_
  have seen'' : visible ("default" :: own) = true := by
    rw [visible, List.all_cons]
    exact Bool.and_eq_true_iff.mpr ⟨rfl, seen'⟩
  refine ⟨begins, skipped ▸ first, ?_⟩
  rw [skipped, deciding, behindWord_of_modifier exported byDefault seen'' separate',
    behindWord_of_modifier isDefault own_ seen' separate]
  exact own_

theorem scriptFunction_opensAt (h : scriptFunction.Reaches a b) :
    OpensAt .typeScript ["export", "default", "async", "function"] ["async", "function"] a := by
  iterate 4 obtain ⟨_, h⟩ := exists_reaches_left h
  obtain ⟨_, h, keyword⟩ := exists_reaches_seq h
  obtain ⟨_, h, isAsync⟩ := exists_reaches_seq h
  obtain ⟨_, h, isDefault⟩ := exists_reaches_seq h
  obtain ⟨_, indented, exported⟩ := exists_reaches_seq h
  have own := opens_modifier isAsync (opens_text keyword)
  have first := opens_modifier exported (opens_modifier isDefault own)
  exact opensAt_script indented exported isDefault own first rfl rfl rfl rfl

theorem scriptArrow_opensAt (h : scriptArrow.Reaches a b) :
    OpensAt .typeScript ["export", "const", "let", "var"] ["const", "let", "var"] a := by
  iterate 11 obtain ⟨_, h⟩ := exists_reaches_left h
  obtain ⟨a₂, h, keyword⟩ := exists_reaches_seq h
  obtain ⟨_, indented, exported⟩ := exists_reaches_seq h
  have own := opens_anyText keyword (by simp)
  exact opensAt_script indented exported (modifier_none "default" a₂) own
    (opens_modifier exported own) rfl rfl rfl rfl

theorem scriptClass_opensAt (h : scriptClass.Reaches a b) :
    OpensAt .typeScript ["export", "default", "abstract", "class"] ["abstract", "class"] a := by
  iterate 2 obtain ⟨_, h⟩ := exists_reaches_left h
  obtain ⟨_, h, keyword⟩ := exists_reaches_seq h
  obtain ⟨_, h, isAbstract⟩ := exists_reaches_seq h
  obtain ⟨_, h, isDefault⟩ := exists_reaches_seq h
  obtain ⟨_, indented, exported⟩ := exists_reaches_seq h
  have own := opens_modifier isAbstract (opens_text keyword)
  have first := opens_modifier exported (opens_modifier isDefault own)
  exact opensAt_script indented exported isDefault own first rfl rfl rfl rfl

theorem scriptInterface_opensAt (h : scriptInterface.Reaches a b) :
    OpensAt .typeScript ["export", "interface"] ["interface"] a := by
  iterate 2 obtain ⟨_, h⟩ := exists_reaches_left h
  obtain ⟨a₂, h, keyword⟩ := exists_reaches_seq h
  obtain ⟨_, indented, exported⟩ := exists_reaches_seq h
  have own := opens_text keyword
  exact opensAt_script indented exported (modifier_none "default" a₂) own
    (opens_modifier exported own) rfl rfl rfl rfl

/-! ### Python -/

theorem pythonFunction_opensAt (h : pythonFunction.Reaches a b) :
    OpensAt .python ["async", "def"] ["async", "def"] a := by
  iterate 4 obtain ⟨_, h⟩ := exists_reaches_left h
  obtain ⟨_, h, keyword⟩ := exists_reaches_seq h
  obtain ⟨_, indented, isAsync⟩ := exists_reaches_seq h
  have first := opens_modifier isAsync (opens_text keyword)
  obtain ⟨begins, skipped⟩ := indent_reaches indented first rfl
  exact ⟨begins, skipped ▸ first, skipped ▸ first⟩

theorem pythonClass_opensAt (h : pythonClass.Reaches a b) :
    OpensAt .python ["class"] ["class"] a := by
  iterate 2 obtain ⟨_, h⟩ := exists_reaches_left h
  obtain ⟨_, indented, keyword⟩ := exists_reaches_seq h
  have first := opens_text keyword
  obtain ⟨begins, skipped⟩ := indent_reaches indented first rfl
  exact ⟨begins, skipped ▸ first, skipped ▸ first⟩

/-! ### Rust -/

/-- A list in parentheses is read over, whether it is there or not. -/
theorem behindParenthesised_of_optional (h : (optional parenthesised).Reaches a b)
    (blank : ∃ c, b.after.head? = some c ∧ isBlank c = true) :
    behindParenthesised a.after = b.after := by
  cases h with
  | altLeft there =>
    obtain ⟨_, h, close⟩ := exists_reaches_seq there
    obtain ⟨_, opens, inner⟩ := exists_reaches_seq h
    obtain ⟨t, reads, all⟩ := passes_many inner
    have first : ∀ {rest : List Char}, "(".toList ++ rest = '(' :: rest := rfl
    have last : ∀ {rest : List Char}, ")".toList ++ rest = ')' :: rest := rfl
    rw [(passes_text opens).after, reads.after, (passes_text close).after, first, last,
      behindParenthesised, List.dropWhile_append_of_pos all]
    rfl
  | altRight none =>
    cases none
    obtain ⟨c, first, isBlank⟩ := blank
    unfold behindParenthesised
    split
    case h_1 rest same =>
      rw [same] at first
      cases first
      cases isBlank
    case h_2 => rfl

/-- **A visibility is read over**, whether it is there or not. -/
theorem behindVisibility_of_reaches (h : rustVisibility.Reaches a b) (opens : Opens ws b.after)
    (seen : visible ws = true) (separate : apart ["pub"] ws = true) :
    behindVisibility a.after = b.after := by
  cases h with
  | altLeft there =>
    obtain ⟨_, h, spaces⟩ := exists_reaches_seq there
    obtain ⟨_, word, who⟩ := exists_reaches_seq h
    obtain ⟨c, t, blanks, all⟩ := passes_many1 spaces
    have first : ∃ c', (c :: t ++ b.after).head? = some c' ∧ isBlank c' = true :=
      ⟨c, rfl, all c List.mem_cons_self⟩
    rw [← blanks.after] at first
    rw [behindVisibility, (passes_text word).after,
      if_pos (by simp), List.drop_left,
      behindParenthesised_of_optional who first]
    exact trimStart_gap spaces opens seen
  | altRight none =>
    cases none
    rw [behindVisibility, if_neg]
    intro begins
    have word : Opens ["pub"] a.after := ⟨"pub", by simp, List.isPrefixOf_iff_prefix.mp begins⟩
    exact word.not_opens separate opens

theorem opensAt_rust {own : List String} {a₁ a₂ : Cursor} (indented : indent.Reaches a a₁)
    (who : rustVisibility.Reaches a₁ a₂) (own_ : Opens own a₂.after) (seen : visible own = true)
    (separate : apart ["pub"] own = true) : OpensAt .rust ("pub" :: own) own a := by
  have first : Opens ("pub" :: own) a₁.after := by
    cases who with
    | altLeft there =>
      obtain ⟨_, h⟩ := exists_reaches_left there
      obtain ⟨_, word⟩ := exists_reaches_left h
      exact (opens_text word).mono (by simp)
    | altRight none =>
      cases none
      exact own_.mono (by simp +contextual)
  have seen' : visible ("pub" :: own) = true := by
    rw [visible, List.all_cons]
    exact Bool.and_eq_true_iff.mpr ⟨rfl, seen⟩
  obtain ⟨begins, skipped⟩ := indent_reaches indented first seen'
  refine ⟨begins, skipped ▸ first, ?_⟩
  rw [skipped, deciding, behindVisibility_of_reaches who own_ seen separate]
  exact own_

theorem rustFunction_opensAt (h : rustFunction.Reaches a b) :
    OpensAt .rust ["pub", "const", "async", "unsafe", "extern", "fn"]
      ["const", "async", "unsafe", "extern", "fn"] a := by
  iterate 2 obtain ⟨_, h⟩ := exists_reaches_left h
  obtain ⟨_, h, keyword⟩ := exists_reaches_seq h
  obtain ⟨a₅, h, external⟩ := exists_reaches_seq h
  obtain ⟨_, h, isUnsafe⟩ := exists_reaches_seq h
  obtain ⟨_, h, isAsync⟩ := exists_reaches_seq h
  obtain ⟨_, h, isConst⟩ := exists_reaches_seq h
  obtain ⟨_, indented, who⟩ := exists_reaches_seq h
  have outer : Opens ["extern", "fn"] a₅.after := by
    cases external with
    | altLeft there =>
      iterate 5 obtain ⟨_, there⟩ := exists_reaches_left there
      exact (opens_text there).mono (by simp)
    | altRight none =>
      cases none
      exact (opens_text keyword).mono (by simp)
  have own := opens_modifier isConst (opens_modifier isAsync (opens_modifier isUnsafe outer))
  exact opensAt_rust indented who own rfl rfl

theorem rustStruct_opensAt (h : rustStruct.Reaches a b) :
    OpensAt .rust ["pub", "struct", "enum"] ["struct", "enum"] a := by
  iterate 2 obtain ⟨_, h⟩ := exists_reaches_left h
  obtain ⟨_, h, keyword⟩ := exists_reaches_seq h
  obtain ⟨_, indented, who⟩ := exists_reaches_seq h
  exact opensAt_rust indented who (opens_anyText keyword (by simp)) rfl rfl

theorem rustTrait_opensAt (h : rustTrait.Reaches a b) :
    OpensAt .rust ["pub", "trait"] ["trait"] a := by
  iterate 2 obtain ⟨_, h⟩ := exists_reaches_left h
  obtain ⟨_, h, keyword⟩ := exists_reaches_seq h
  obtain ⟨_, indented, who⟩ := exists_reaches_seq h
  exact opensAt_rust indented who (opens_text keyword) rfl rfl

/-! ### Go -/

theorem lineStart_reaches (h : Pattern.lineStart.Reaches a b) (opens : Opens ws b.after)
    (seen : visible ws = true) :
    a.atLineStart = true ∧ a = b ∧ a.skipWhile isIndent = a := by
  cases h with
  | lineStart begins =>
    exact ⟨begins, rfl, skipWhile_of_opens (.refl a) (fun _ none => nomatch none) opens seen⟩

theorem goFunction_opensAt (h : goFunction.Reaches a b) :
    OpensAt .go ["func"] ["func"] a := by
  iterate 5 obtain ⟨_, h⟩ := exists_reaches_left h
  obtain ⟨_, start, keyword⟩ := exists_reaches_seq h
  have first := opens_text keyword
  obtain ⟨begins, rfl, skipped⟩ := lineStart_reaches start first rfl
  have word : "func".toList.isPrefixOf a.after = true := by
    simpa [Opens, List.isPrefixOf_iff_prefix] using first
  refine ⟨begins, skipped.symm ▸ first, ?_⟩
  rw [skipped, deciding, if_pos word]
  exact first

/-- The name of a type is read over. -/
theorem behindTypeName_of_reaches {a₁ a₂ a₃ : Cursor} (word : (Pattern.text "type").Reaches a a₁)
    (spaces : gap.Reaches a₁ a₂) (named : Pattern.word.Reaches a₂ a₃) (spaces' : gap.Reaches a₃ b)
    (opens : Opens ws b.after) (seen : visible ws = true) : behindTypeName a.after = b.after := by
  obtain ⟨c, t, name, all⟩ := passes_many1 named
  obtain ⟨c', t', gap', blank'⟩ := passes_many1 spaces'
  obtain ⟨c'', t'', gap, blank⟩ := passes_many1 spaces
  have notWord : isWord c' = false := by
    by_contra isWord
    have isBlank := blank' c' List.mem_cons_self
    rw [isBlank_eq_false_of_isWord (by simpa using isWord)] at isBlank
    cases isBlank
  have first : a₂.after.head? = some c := by rw [name.after]; rfl
  have begins : trimStart a₁.after = a₂.after := by
    rw [gap.after]
    exact trimStart_append (List.all_eq_true.mpr blank) first
      (isBlank_eq_false_of_isWord (all c List.mem_cons_self))
  have passed : a₂.after.dropWhile isWord = a₃.after := by
    rw [name.after, List.dropWhile_append_of_pos all, gap'.after, List.cons_append,
      List.dropWhile_cons_of_neg (by simp [notWord])]
  rw [behindTypeName, behindWord, (passes_text word).after,
    if_pos (by simp), List.drop_left, begins, passed]
  exact trimStart_gap spaces' opens seen

theorem goType_opensAt (h : (goType keyword).Reaches a b) (seen : visible [keyword] = true) :
    OpensAt .go ["type"] [keyword] a := by
  obtain ⟨_, h, kind⟩ := exists_reaches_seq h
  obtain ⟨_, h, spaces'⟩ := exists_reaches_seq h
  obtain ⟨_, h, named⟩ := exists_reaches_seq h
  obtain ⟨_, h, spaces⟩ := exists_reaches_seq h
  obtain ⟨_, start, word⟩ := exists_reaches_seq h
  have first := opens_text word
  obtain ⟨begins, rfl, skipped⟩ := lineStart_reaches start first rfl
  have notFunction : ¬ "func".toList.isPrefixOf a.after = true := by
    intro func
    have function : Opens ["func"] a.after := ⟨"func", by simp, List.isPrefixOf_iff_prefix.mp func⟩
    exact function.not_opens rfl first
  cases named with
  | kept named =>
    have own := opens_text kind
    refine ⟨begins, skipped.symm ▸ first, ?_⟩
    rw [skipped, deciding, if_neg notFunction,
      behindTypeName_of_reaches word spaces named spaces' own seen]
    exact own

end Patterns

/-! ## 3. The declarations of a language -/

/-- The words with which declarations of a kind can open. -/
def firstWords : Language → SymbolKind → List String
  | .typeScript, .function => ["export", "default", "async", "function", "const", "let", "var"]
  | .typeScript, .classType => ["export", "default", "abstract", "class"]
  | .typeScript, .interface => ["export", "interface"]
  | .python, .function => ["async", "def"]
  | .python, .classType => ["class"]
  | .rust, .function => ["pub", "const", "async", "unsafe", "extern", "fn"]
  | .rust, .struct => ["pub", "struct", "enum"]
  | .rust, .interface => ["pub", "trait"]
  | .go, .function => ["func"]
  | .go, .struct => ["type"]
  | .go, .interface => ["type"]
  | _, _ => []

/-- The words with which each pattern's declarations can open, and the pattern's own words, of which
    one stands where the patterns part. -/
def declarationWords : Language → List (List String × List String)
  | .typeScript =>
    [(["export", "default", "async", "function"], ["async", "function"]),
     (["export", "const", "let", "var"], ["const", "let", "var"]),
     (["export", "default", "abstract", "class"], ["abstract", "class"]),
     (["export", "interface"], ["interface"])]
  | .python => [(["async", "def"], ["async", "def"]), (["class"], ["class"])]
  | .rust =>
    [(["pub", "const", "async", "unsafe", "extern", "fn"],
      ["const", "async", "unsafe", "extern", "fn"]),
     (["pub", "struct", "enum"], ["struct", "enum"]), (["pub", "trait"], ["trait"])]
  | .go => [(["func"], ["func"]), (["type"], ["struct"]), (["type"], ["interface"])]

section Declarations

variable {language : Language} {d : Pattern × SymbolKind} {a b : Cursor}

/-- **The patterns of a language open as told.** -/
theorem declarations_opensAt (language : Language) :
    List.Forall₂ (fun (d : Pattern × SymbolKind) (words : List String × List String) =>
        ∀ a b, d.1.Reaches a b → OpensAt language words.1 words.2 a)
      (declarations language) (declarationWords language) := by
  cases language with
  | typeScript =>
    refine .cons (fun a b h => ?_) (.cons (fun a b h => ?_) (.cons (fun a b h => ?_)
      (.cons (fun a b h => ?_) .nil)))
    · exact scriptFunction_opensAt h
    · exact scriptArrow_opensAt h
    · exact scriptClass_opensAt h
    · exact scriptInterface_opensAt h
  | python =>
    refine .cons (fun a b h => ?_) (.cons (fun a b h => ?_) .nil)
    · exact pythonFunction_opensAt h
    · exact pythonClass_opensAt h
  | rust =>
    refine .cons (fun a b h => ?_) (.cons (fun a b h => ?_) (.cons (fun a b h => ?_) .nil))
    · exact rustFunction_opensAt h
    · exact rustStruct_opensAt h
    · exact rustTrait_opensAt h
  | go =>
    refine .cons (fun a b h => ?_) (.cons (fun a b h => ?_) (.cons (fun a b h => ?_) .nil))
    · exact goFunction_opensAt h
    · exact goType_opensAt h rfl
    · exact goType_opensAt h rfl

/-- The words of a pattern are among those of its kind. -/
theorem declarationWords_among (language : Language) :
    List.Forall₂ (fun (d : Pattern × SymbolKind) (words : List String × List String) =>
        ∀ w ∈ words.1, w ∈ firstWords language d.2)
      (declarations language) (declarationWords language) := by
  cases language <;> simp [declarations, declarationWords, firstWords]

/-- No word of one pattern begins a word of another. -/
theorem declarationWords_apart (language : Language) :
    (declarationWords language).Pairwise fun words words' => apart words.2 words'.2 = true := by
  cases language <;> decide

/-- **Where a pattern fits, a line begins, and behind its indentation a declaration opens** with one
    of the words of its kind. -/
theorem exists_opens (hd : d ∈ declarations language) (h : d.1.Reaches a b) :
    a.atLineStart = true ∧ Opens (firstWords language d.2) (a.skipWhile isIndent).after := by
  obtain ⟨i, hi, rfl⟩ := List.getElem_of_mem hd
  obtain ⟨same, opens⟩ := List.forall₂_iff_get.mp (declarations_opensAt language)
  have among := (List.forall₂_iff_get.mp (declarationWords_among language)).2
  have here := opens i hi (same ▸ hi) a b h
  exact ⟨here.line, here.first.mono (among i hi (same ▸ hi))⟩

/-- **At one place at most one pattern of a language fits.** -/
theorem declarations_exclude (language : Language) :
    (declarations language).Pairwise fun d d' =>
      ∀ a b b', d.1.Reaches a b → ¬ d'.1.Reaches a b' := by
  obtain ⟨same, opens⟩ := List.forall₂_iff_get.mp (declarations_opensAt language)
  have separate := List.pairwise_iff_getElem.mp (declarationWords_apart language)
  refine List.pairwise_iff_getElem.mpr fun i j hi hj before a b b' h h' => ?_
  have own := opens i hi (same ▸ hi) a b h
  have own' := opens j hj (same ▸ hj) a b' h'
  exact own.own.not_opens (separate i j _ _ before) own'.own

end Declarations

end CodeInsight.Source
