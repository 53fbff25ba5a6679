import CodeInsight.Proofs.Source.Openings

/-!
# Names of symbols

* a piece of a text is a `WholeWord` if it is a maximal run of word characters;
* no word goes on behind what a pattern reads (`EndsApart`), or before it (`BeginsApart`), if it
  ends or begins with something else than a word character: that can be seen from its pieces, and
  all patterns of declarations but one are such around the name (`apart_of_around`);
* a name with nothing behind it in the pattern is read as far as it goes (`stop_of_keepsRun`);
* so **a symbol's name is a whole word of its file**, but that a script's `function` needs nothing
  between itself and the name (`Outline.names_words`): any word that begins with `function` and
  stands where a declaration may stand is reported under the rest of it
  (`Outline.names_rest_of_word`).
-/

namespace CodeInsight.Text

/-- `before`, `word` and `after` make up a text in which `word` is a maximal run of word
    characters. -/
structure WholeWord (before word after : List Char) : Prop where
  nonempty : word ≠ []
  all : ∀ c ∈ word, isWord c = true
  begins : ∀ c ∈ before.getLast?, isWord c = false
  ends : ∀ c ∈ after.head?, isWord c = false

theorem wholeWord_iff {before word after : List Char} :
    (!word.isEmpty && word.all isWord && before.getLast?.all (!isWord ·) &&
      after.head?.all (!isWord ·)) = true ↔ WholeWord before word after := by
  simp only [Bool.and_eq_true, Bool.not_eq_true', List.isEmpty_eq_false_iff, List.all_eq_true,
    Option.all_eq_true]
  exact ⟨fun ⟨⟨⟨nonempty, all⟩, begins⟩, ends⟩ => ⟨nonempty, all, begins, ends⟩,
    fun ⟨nonempty, all, begins, ends⟩ => ⟨⟨⟨nonempty, all⟩, begins⟩, ends⟩⟩

instance (before word after : List Char) : Decidable (WholeWord before word after) :=
  decidable_of_iff _ wholeWord_iff

/-! ## 1. Where no word goes on -/

section Apart

variable {cls : Char → Bool} {a b : Cursor} {p q : Pattern} {s : String} {c : Char}
  {cs : List Char}

theorem isWord_of_isBlank (h : isBlank c = true) : isWord c = false := by
  by_contra word
  rw [isBlank_eq_false_of_isWord (by simpa using word)] at h
  cases h

namespace Cursor

theorem wordBefore_of_passes (h : a.Passes (cs ++ [c]) b) (apart : isWord c = false) :
    b.wordBefore = false := by
  rw [wordBefore, h.before, List.reverse_append, List.reverse_singleton]
  exact apart

theorem wordAfter_of_passes (h : a.Passes (c :: cs) b) (apart : isWord c = false) :
    a.wordAfter = false := by
  rw [wordAfter, h.after]
  exact apart

theorem wordBefore_of_lineStart (start : a.atLineStart = true) : a.wordBefore = false := by
  unfold atLineStart at start
  unfold wordBefore
  split
  case h_1 => rfl
  case h_2 c before same =>
    rw [same] at start
    rw [eq_of_beq start]
    rfl

end Cursor

namespace Pattern

/-- No word goes on behind what the pattern reads. -/
def EndsApart (p : Pattern) : Prop := ∀ a b, p.Reaches a b → b.wordBefore = false

/-- The pattern reads nothing, or no word goes on behind what it reads. -/
def StaysOrEndsApart (p : Pattern) : Prop := ∀ a b, p.Reaches a b → b = a ∨ b.wordBefore = false

/-- No word goes on into what the pattern reads. -/
def BeginsApart (p : Pattern) : Prop := ∀ a b, p.Reaches a b → a.wordAfter = false

/-- The pattern reads nothing, or no word goes on into what it reads. -/
def StaysOrBeginsApart (p : Pattern) : Prop := ∀ a b, p.Reaches a b → b = a ∨ a.wordAfter = false

/-! ### Sequences and alternatives -/

theorem EndsApart.last (h : q.EndsApart) : (Pattern.seq p q).EndsApart := by
  intro a c reached
  obtain ⟨b, -, second⟩ := exists_reaches_seq reached
  exact h b c second

theorem EndsApart.seq (hp : p.EndsApart) (hq : q.StaysOrEndsApart) :
    (Pattern.seq p q).EndsApart := by
  intro a c reached
  obtain ⟨b, first, second⟩ := exists_reaches_seq reached
  rcases hq b c second with rfl | apart
  · exact hp a c first
  · exact apart

theorem EndsApart.optional (h : p.EndsApart) : (Pattern.optional p).StaysOrEndsApart := by
  intro a b reached
  cases reached with
  | altLeft there => exact .inr (h a b there)
  | altRight none =>
    cases none
    exact .inl rfl

theorem BeginsApart.first (h : p.BeginsApart) : (Pattern.seq p q).BeginsApart := by
  intro a c reached
  obtain ⟨b, first, -⟩ := exists_reaches_seq reached
  exact h a b first

theorem BeginsApart.seq (hp : p.StaysOrBeginsApart) (hq : q.BeginsApart) :
    (Pattern.seq p q).BeginsApart := by
  intro a c reached
  obtain ⟨b, first, second⟩ := exists_reaches_seq reached
  rcases hp a b first with rfl | apart
  · exact hq b c second
  · exact apart

theorem StaysOrBeginsApart.seq (hp : p.StaysOrBeginsApart) (hq : q.StaysOrBeginsApart) :
    (Pattern.seq p q).StaysOrBeginsApart := by
  intro a c reached
  obtain ⟨b, first, second⟩ := exists_reaches_seq reached
  rcases hp a b first with rfl | apart
  · exact hq b c second
  · exact .inr apart

theorem BeginsApart.optional (h : p.BeginsApart) : (Pattern.optional p).StaysOrBeginsApart := by
  intro a b reached
  cases reached with
  | altLeft there => exact .inr (h a b there)
  | altRight none =>
    cases none
    exact .inl rfl

/-! ### Nothing, texts and blanks -/

theorem staysOrEndsApart_nothing : Pattern.nothing.StaysOrEndsApart := by
  intro a b reached
  cases reached
  exact .inl rfl

theorem staysOrBeginsApart_nothing : Pattern.nothing.StaysOrBeginsApart := by
  intro a b reached
  cases reached
  exact .inl rfl

theorem endsApart_lineStart : Pattern.lineStart.EndsApart := by
  intro a b reached
  cases reached with
  | lineStart start => exact Cursor.wordBefore_of_lineStart start

theorem endsApart_text (chars : s.toList = cs ++ [c]) (apart : isWord c = false) :
    (Pattern.text s).EndsApart := by
  intro a b reached
  exact Cursor.wordBefore_of_passes (chars ▸ passes_text reached) apart

theorem beginsApart_text (chars : s.toList = c :: cs) (apart : isWord c = false) :
    (Pattern.text s).BeginsApart := by
  intro a b reached
  exact Cursor.wordAfter_of_passes (chars ▸ passes_text reached) apart

theorem beginsApart_one (apart : ∀ c, cls c = true → isWord c = false) :
    (Pattern.one cls).BeginsApart := by
  intro a b reached
  cases reached with
  | one step inClass =>
    exact Cursor.wordAfter_of_passes (Cursor.passes_of_step? step) (apart _ inClass)

/-- What reads characters that no word holds stays, or ends apart and begins apart. -/
theorem apart_of_many (apart : ∀ c, cls c = true → isWord c = false)
    (h : (many cls).Reaches a b) :
    b = a ∨ b.wordBefore = false ∧ a.wordAfter = false := by
  obtain ⟨t, passes, all⟩ := passes_many h
  rcases List.eq_nil_or_concat t with rfl | ⟨cs, c, rfl⟩
  · exact .inl passes.eq_of_nil
  · rw [List.concat_eq_append] at passes all
    refine .inr ⟨Cursor.wordBefore_of_passes passes (apart c (all c (by simp))), ?_⟩
    cases cs with
    | nil => exact Cursor.wordAfter_of_passes passes (apart c (all c (by simp)))
    | cons c' cs => exact Cursor.wordAfter_of_passes passes (apart c' (all c' (by simp)))

theorem staysOrEndsApart_many (apart : ∀ c, cls c = true → isWord c = false) :
    (many cls).StaysOrEndsApart :=
  fun _ _ reached => (apart_of_many apart reached).imp_right And.left

theorem staysOrEndsApart_blanks : blanks.StaysOrEndsApart :=
  staysOrEndsApart_many fun _ => isWord_of_isBlank

theorem staysOrBeginsApart_blanks : blanks.StaysOrBeginsApart :=
  fun _ _ reached => (apart_of_many (fun _ => isWord_of_isBlank) reached).imp_right And.right

theorem endsApart_gap : gap.EndsApart := by
  refine .seq (fun a b reached => ?_) staysOrEndsApart_blanks
  cases reached with
  | @one _ _ _ c step inClass =>
    have passes : a.Passes ([] ++ [c]) b := Cursor.passes_of_step? step
    exact Cursor.wordBefore_of_passes passes (isWord_of_isBlank inClass)

theorem beginsApart_gap : gap.BeginsApart :=
  .first (beginsApart_one fun _ => isWord_of_isBlank)

/-! ### A run that nothing follows -/

/-- **A named run at a pattern's end is read as far as it goes.** -/
theorem stop_of_keepsRun {name : String} {m : Match}
    (h : (Pattern.seq p (.kept name (many1 cls))).matchAt? a = some m) :
    ∃ x, m.span? name = some (x, m.stop) ∧ ∀ c ∈ m.stop.after.head?, cls c = false := by
  rw [matchAt?, search] at h
  obtain ⟨x, ps, -, found⟩ := captures_of_search h
  rw [search, many1, search, search] at found
  split at found
  case h_2 => cases found
  case h_1 c y _ =>
    obtain ⟨-, found⟩ := Option.ite_none_right_eq_some.mp found
    -- the farthest place is tried first, and nothing that follows refuses it
    obtain ⟨places, reach⟩ := List.getLast?_eq_some_iff.mp (getLast?_reach cls y.before y.after)
    rw [many, search, if_pos rfl, reach, List.reverse_append] at found
    obtain rfl := Option.some.inj found
    refine ⟨x, List.lookup_cons_self, fun c first => ?_⟩
    exact head?_dropWhile cls y.after c first

end Pattern

end Apart

end CodeInsight.Text

namespace CodeInsight.Source

open CodeInsight.Text Pattern

/-! ## 2. Around the names of declarations -/

section Patterns

variable {language : Language} {d : Pattern × SymbolKind} {front behind : Pattern} {a b : Cursor}

theorem endsApart_indent : indent.EndsApart := by
  refine .seq endsApart_lineStart (staysOrEndsApart_many fun c indents => ?_)
  rcases Bool.or_eq_true_iff.mp indents with same | same
  · rw [eq_of_beq same]
    rfl
  · rw [eq_of_beq same]
    rfl

theorem staysOrEndsApart_modifier (w : String) : (modifier w).StaysOrEndsApart :=
  EndsApart.optional (.last endsApart_gap)

/-- **Around the name in a pattern of declarations**: what stands before it ends apart, but for a
    script's functions, and what stands behind it begins apart, or the name is the pattern's end. -/
theorem apart_of_around (h : d ∈ declarations language)
    (cut : d.1.around "name" = some (front, word, behind)) :
    (front.EndsApart ∨ language = .typeScript ∧ d = (scriptFunction, .function)) ∧
      (behind.BeginsApart ∨ ∃ p, d.1 = .seq p declaredName) := by
  have parted {p : Pattern} : ((p ++ gap) ++ Pattern.nothing : Pattern).EndsApart :=
    .seq (.last endsApart_gap) staysOrEndsApart_nothing
  have spaced : (Pattern.nothing ++ blanks : Pattern).StaysOrBeginsApart :=
    .seq staysOrBeginsApart_nothing staysOrBeginsApart_blanks
  cases language with
  | typeScript =>
    simp only [declarations, List.mem_cons, List.not_mem_nil, or_false] at h
    rcases h with rfl | rfl | rfl | rfl
    · exact ⟨.inr ⟨rfl, rfl⟩, .inr ⟨_, rfl⟩⟩
    · cases cut
      have annotated : typeAnnotation.StaysOrBeginsApart :=
        BeginsApart.optional (.first (beginsApart_text rfl rfl))
      refine ⟨.inl parted, .inl (.first (.first (.first (.first (.first (.first ?_))))))⟩
      exact .seq (.seq spaced annotated) (beginsApart_text rfl rfl)
    · cases cut
      exact ⟨.inl parted, .inr ⟨_, rfl⟩⟩
    · cases cut
      exact ⟨.inl parted, .inr ⟨_, rfl⟩⟩
  | python =>
    simp only [declarations, List.mem_cons, List.not_mem_nil, or_false] at h
    rcases h with rfl | rfl
    · cases cut
      exact ⟨.inl parted, .inl (.seq spaced (beginsApart_text rfl rfl))⟩
    · cases cut
      exact ⟨.inl parted, .inr ⟨_, rfl⟩⟩
  | rust =>
    simp only [declarations, List.mem_cons, List.not_mem_nil, or_false] at h
    rcases h with rfl | rfl | rfl
    · cases cut
      exact ⟨.inl parted, .inr ⟨_, rfl⟩⟩
    · cases cut
      exact ⟨.inl parted, .inr ⟨_, rfl⟩⟩
    · cases cut
      exact ⟨.inl parted, .inr ⟨_, rfl⟩⟩
  | go =>
    have kind : (Pattern.nothing ++ gap : Pattern).BeginsApart :=
      .seq staysOrBeginsApart_nothing beginsApart_gap
    simp only [declarations, List.mem_cons, List.not_mem_nil, or_false] at h
    rcases h with rfl | rfl | rfl
    · cases cut
      have closed : (Pattern.text ")").EndsApart :=
        endsApart_text (show _ = [] ++ [')'] from rfl) rfl
      have receiver : (optional (parenthesised ++ blanks)).StaysOrEndsApart :=
        EndsApart.optional (.seq (.last closed) staysOrEndsApart_blanks)
      refine ⟨.inl (.seq (.seq (.last endsApart_gap) receiver) staysOrEndsApart_nothing),
        .inl (.seq spaced (beginsApart_one fun c bracket => ?_))⟩
      simp at bracket
      rcases bracket with rfl | rfl
      · rfl
      · rfl
    · cases cut
      exact ⟨.inl parted, .inl (.first kind)⟩
    · cases cut
      exact ⟨.inl parted, .inl (.first kind)⟩

/-- **The name of a script's function**: blanks or a star part it from the word `function`, or it
    follows that word at once, which itself no word goes on into. -/
theorem apart_or_behind_function
    (cut : scriptFunction.around "name" = some (front, word, behind)) (h : front.Reaches a b) :
    b.wordBefore = false ∨
      ∃ t x, a.Passes t x ∧ x.Passes "function".toList b ∧ x.wordBefore = false := by
  cases cut
  obtain ⟨b₁, h, none⟩ := exists_reaches_seq h
  cases none
  obtain ⟨b₂, h, spaces'⟩ := exists_reaches_seq h
  obtain ⟨b₃, h, star⟩ := exists_reaches_seq h
  obtain ⟨b₄, h, spaces⟩ := exists_reaches_seq h
  obtain ⟨x, opened, keyword⟩ := exists_reaches_seq h
  have star_ : (optional (Pattern.text "*")).StaysOrEndsApart :=
    EndsApart.optional (endsApart_text (show _ = [] ++ ['*'] from rfl) rfl)
  rcases staysOrEndsApart_blanks _ _ spaces' with rfl | apart
  case inr => exact .inl apart
  rcases star_ _ _ star with rfl | apart
  case inr => exact .inl apart
  rcases staysOrEndsApart_blanks _ _ spaces with rfl | apart
  case inr => exact .inl apart
  have apart : (((indent ++ modifier "export") ++ modifier "default") ++ modifier "async" :
      Pattern).EndsApart :=
    .seq (.seq (.seq endsApart_indent (staysOrEndsApart_modifier _)) (staysOrEndsApart_modifier _))
      (staysOrEndsApart_modifier _)
  exact .inr ⟨_, x, opened.passes, passes_text keyword, apart _ _ opened⟩

end Patterns

/-! ## 3. Names of symbols -/

section Names

variable {language : Language} {content head rest : List Char} {s : Symbol}

/-- How a symbol's name stands in a file: `before` precedes the symbol's place, `head` is read from
    there up to the name, and `rest` follows it. It is a whole word, or, for a function of a script,
    the rest of a whole word that begins with `function`. -/
def NameStands (language : Language) (s : Symbol) (before head rest : List Char) : Prop :=
  WholeWord (before ++ head) s.name.toList rest ∨
    language = .typeScript ∧ s.kind = .function ∧
      ∃ modifiers, head = modifiers ++ "function".toList ∧
        WholeWord (before ++ modifiers) ("function".toList ++ s.name.toList) rest

theorem getLast?_of_wordBefore {a : Cursor} (h : a.wordBefore = false) :
    ∀ c ∈ a.before.reverse.getLast?, isWord c = false := by
  rw [List.getLast?_reverse]
  exact Cursor.wordBefore_eq_false_iff.mp h

/-- Blanks are taken off in front of something that is not blank. -/
theorem trimStart_append_visible {t u : List Char} {c : Char} (first : u.head? = some c)
    (visible : isBlank c = false) : trimStart (t ++ u) = trimStart t ++ u := by
  rw [trimStart, trimStart, List.dropWhile_append]
  split
  case isTrue blank =>
    rw [List.isEmpty_iff.mp blank, List.nil_append]
    exact trimStart_append (show allBlank [] = true from rfl) first visible
  case isFalse => rfl

/-- Nothing of a name is left behind it. -/
theorem name_ends {d : Pattern × SymbolKind} {m : Match} {x y : Cursor}
    (hd : d ∈ declarations language) (hm : m ∈ d.1.findAll content)
    (kept : m.span? "name" = some (x, y)) : ∀ c ∈ y.after.head?, isWord c = false := by
  obtain ⟨front, behind, cut, -, -⟩ := exists_around_name hd
  rcases (apart_of_around hd cut).2 with apart | ⟨p, atEnd⟩
  · obtain ⟨-, x', y', kept', -, -, after⟩ := around_of_mem_findAll hm cut
    obtain ⟨rfl, rfl⟩ : x' = x ∧ y' = y := by
      simpa [kept'] using kept
    exact Cursor.wordAfter_eq_false_iff.mp (apart _ _ after)
  · have found := (matchAt?_of_mem_findAllFrom hm).1
    rw [atEnd] at found
    obtain ⟨x', kept', ends⟩ := stop_of_keepsRun found
    obtain ⟨-, rfl⟩ : x' = x ∧ m.stop = y := by
      simpa [kept'] using kept
    exact ends

/-- **How a declared name stands in the content.** -/
theorem Declared.name_stands (h : Declared language content s head rest) :
    ∃ place : Cursor, place.text = content ∧ place.after = head ++ s.name.toList ++ rest ∧
      s.line = place.line ∧ s.column = place.column ∧
      NameStands language s place.before.reverse head rest := by
  obtain ⟨d, hd, m, hm, x, y, kept, rfl, rfl, rfl⟩ := h
  obtain ⟨front, behind, cut, -, solid⟩ := exists_around_name hd
  obtain ⟨whole, x', y', kept', before, name, -⟩ := around_of_mem_findAll hm cut
  obtain ⟨rfl, rfl⟩ : x' = x ∧ y' = y := by
    simpa [kept'] using kept
  have ends := name_ends hd hm kept
  have visible := exists_solid before solid
  have reads := passes_declarationStart before.passes visible
  have named : (symbolOf language d.2 m).name.toList = x'.textTo y' := by
    simp [symbolOf, Match.part?, kept]
  obtain ⟨c, t, passes, word⟩ := passes_many1 name
  refine ⟨declarationStart m, ?_, ?_, rfl, rfl, ?_⟩
  · rw [← whole]
    exact Cursor.text_skipWhile _ _
  · rw [named, reads.textTo, reads.after, name.passes.after, List.append_assoc]
  have upTo : (declarationStart m).before.reverse ++ (declarationStart m).textTo x' =
      x'.before.reverse := by
    rw [reads.textTo, reads.before, List.reverse_append, List.reverse_reverse]
  rw [NameStands, named, passes.textTo, upTo]
  rcases (apart_of_around hd cut).1 with apart | ⟨script, rfl⟩
  · exact .inl ⟨by simp, word, getLast?_of_wordBefore (apart _ _ before), ends⟩
  rcases apart_or_behind_function cut before with apart | ⟨t', z, modifiers, keyword, apart⟩
  · exact .inl ⟨by simp, word, getLast?_of_wordBefore apart, ends⟩
  have head : (declarationStart m).textTo x' = trimStart t' ++ "function".toList := by
    rw [reads.textTo, (modifiers.trans keyword).textTo]
    exact trimStart_append_visible rfl rfl
  refine .inr ⟨script, rfl, trimStart t', head, ?_⟩
  have upTo' : (declarationStart m).before.reverse ++ trimStart t' = z.before.reverse := by
    rw [head, keyword.before, List.reverse_append, List.reverse_reverse, ← List.append_assoc]
      at upTo
    exact List.append_cancel_right upTo
  rw [upTo']
  refine ⟨by simp, ?_, getLast?_of_wordBefore apart, ends⟩
  have keywordWord : "function".toList.all isWord = true := by decide
  exact List.forall_mem_append.mpr ⟨List.all_eq_true.mp keywordWord, word⟩

end Names

end CodeInsight.Source

namespace CodeInsight

open Source Text

/-- **The names of symbols are whole words of the file**, with one exception: wherever a symbol of
    an outline is declared, its name is a maximal run of word characters there, or the symbol is a
    function of a script and what stands there is one word, `function` with the name behind it. -/
theorem Outline.names_words {path content : String} {o : Outline} {s : Symbol}
    (h : Outline.ofSource path content = .ok o) (hs : s ∈ o.symbols) :
    ∃ language, o.language = some language ∧
      (∃ head rest, Declared language content.toList s head rest) ∧
      ∀ head rest, Declared language content.toList s head rest →
        ∃ place : Cursor, place.text = content.toList ∧
          place.after = head ++ s.name.toList ++ rest ∧
          s.line = place.line ∧ s.column = place.column ∧
          NameStands language s place.before.reverse head rest := by
  obtain ⟨language, known, symbols⟩ := Outline.symbols_of_ofSource h
  rw [symbols] at hs
  exact ⟨language, known, exists_declared hs, fun _ _ declared => declared.name_stands⟩

/-- A generator with a star between the word and the name. -/
theorem Outline.names_words_generator :
    let s : Symbol := ⟨.function, "f", 1, 0, some "function*f() \x7b\x7d", false⟩
    Outline.ofSource "a.ts" "function*f() \x7b\x7d\n" = .ok ⟨"a.ts", some .typeScript, [s], []⟩ ∧
      WholeWord "function*".toList s.name.toList "() \x7b\x7d\n".toList := by
  intro s
  have parsed : Outline.ofSource "a.ts" "function*f() \x7b\x7d\n" =
      .ok ⟨"a.ts", some .typeScript, [s], []⟩ := by
    decide +kernel
  obtain ⟨language, known, -, stands⟩ := Outline.names_words parsed List.mem_cons_self
  cases known
  have declared : Declared .typeScript "function*f() \x7b\x7d\n".toList s "function*".toList
      "() \x7b\x7d\n".toList := by
    decide +kernel
  obtain ⟨place, whole, after, -, -, name | ⟨-, -, modifiers, starless, -⟩⟩ := stands _ _ declared
  · have start : place.before = [] := by
      have lengths := congrArg List.length whole
      simp [Cursor.text, after, s] at lengths
      exact lengths
    rw [start] at name
    exact ⟨parsed, name⟩
  · exact absurd (congrArg List.getLast? starless) (by simp)

/-- **A call is reported as a declaration**: `functionName(x);` declares nothing, and what is
    reported, a function `Name`, is nowhere in the file a word of its own. -/
theorem Outline.names_rest_of_word :
    let s : Symbol := ⟨.function, "Name", 1, 0, some "functionName(x);", false⟩
    Outline.ofSource "a.ts" "functionName(x);\n" = .ok ⟨"a.ts", some .typeScript, [s], []⟩ ∧
      ∀ before after, "functionName(x);\n".toList = before ++ s.name.toList ++ after →
        ¬ WholeWord before s.name.toList after := by
  intro s
  have parsed : Outline.ofSource "a.ts" "functionName(x);\n" =
      .ok ⟨"a.ts", some .typeScript, [s], []⟩ := by
    decide +kernel
  let content := "functionName(x);\n".toList
  let name := s.name.toList
  have nowhere : (List.range (content.length + 1)).all fun n =>
      (content.drop n).take name.length = name →
        ¬ WholeWord (content.take n) name (content.drop (n + name.length)) := by
    decide +kernel
  refine ⟨parsed, fun before after split word => ?_⟩
  have cut : content = before ++ (name ++ after) := by
    rw [← List.append_assoc]
    exact split
  have inside : before.length < content.length + 1 := by
    rw [cut, List.length_append]
    omega
  have none := of_decide_eq_true
    (List.all_eq_true.mp nowhere before.length (List.mem_range.mpr inside))
  rw [cut, ← List.drop_drop, List.take_left, List.drop_left, List.drop_left, List.take_left]
    at none
  exact none rfl word

end CodeInsight
