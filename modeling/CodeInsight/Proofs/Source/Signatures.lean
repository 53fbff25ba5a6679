import CodeInsight.Proofs.Source.Declared
import CodeInsight.Proofs.Source.Extents

/-!
# What a symbol's signature covers

* a signature is the beginning of what stands at its symbol's place (`extentAt_isPrefix`), and it
  covers a character that is not blank exactly if **the declaration goes on so far** (`GoesOn`,
  `append_isPrefix_extentAt_iff`): between braces if nothing before the character ends it, as
  parentheses and brackets are counted, which needs a brace or a semicolon (`goesOn_of_not_mem`),
  by indentation if no line on the way leaves the block;
* so a function's signature covers its parameters up to a closing parenthesis exactly if its
  declaration goes on up to there (`Outline.covers_parameters`). A brace that is closed among the
  parameters cuts it short (`Outline.cut_behind_destructured`), and so does a line of them that is
  not indented.
-/

namespace CodeInsight

namespace Source

open CodeInsight.Text

section Extent

variable {language : Language} {place : Cursor} {column : Nat} {c : Char} {upto rest : List Char}

/-- Whether a declaration in column `column` that begins with `upto` goes on behind it, where `rest`
    follows: between braces nothing in `upto` ends it, by indentation every line that `upto` reaches
    is blank or indented deeper, but for the declaration's first. -/
def GoesOn (language : Language) (column : Nat) (upto rest : List Char) : Prop :=
  if language.usesBraces then ∀ q, q <+: upto → ¬ EndsCounted q
  else ∀ l ∈ ((pieces '\n' (upto ++ rest)).tail).take (upto.count '\n'), inBlock column l = true

/-- A declaration's extent is the beginning of what stands at its place. -/
theorem extentAt_isPrefix (language : Language) (place : Cursor) :
    extentAt language place <+: place.after := by
  unfold extentAt
  split
  case isTrue => exact bracedExtent_prefix _
  case isFalse => exact indentedExtent_prefix _ _

/-- Between braces a declaration goes on as long as no brace and no semicolon comes. -/
theorem goesOn_of_not_mem (braces : language.usesBraces = true) (brace : '{' ∉ upto)
    (semicolon : ';' ∉ upto) : GoesOn language column upto rest := by
  rw [GoesOn, if_pos braces]
  intro q hq ends
  rcases ends with ⟨r, rfl, -⟩ | ⟨r, body, rfl, -⟩
  · exact semicolon (hq.subset (by simp))
  · exact brace (hq.subset (by simp))

/-- **The extent covers a character** that is not blank exactly if the declaration goes on up to
    it. -/
theorem append_isPrefix_extentAt_iff (notBlank : isBlank c = false)
    (follows : place.after = upto ++ c :: rest) :
    upto ++ [c] <+: extentAt language place ↔ GoesOn language place.column upto (c :: rest) := by
  unfold extentAt GoesOn
  split
  case isTrue =>
    have there : upto ++ [c] <+: place.after := ⟨rest, by simp [follows]⟩
    rw [(bracedExtent_isShortest_counted place.after).prefix_iff there]
    constructor
    · intro none q hq
      refine none q (hq.trans (List.prefix_append _ _)) ?_
      rintro rfl
      have := hq.length_le
      rw [List.length_append, List.length_singleton] at this
      omega
    · intro none q hq shorter
      rcases List.prefix_concat_iff.mp hq with rfl | before
      · exact absurd rfl shorter
      · exact none q before
  case isFalse =>
    rw [follows]
    exact prefix_indentedExtent_iff notBlank

end Extent

end Source

open Source Text

/-- **A signature covers the parameters** of a declaration whose name is followed by a parenthesis
    exactly as far as the declaration goes on: every symbol of an outline is declared in its file,
    and wherever it is, a closing parenthesis behind its name is covered, with all before it,
    exactly if nothing up to there ends the declaration. In particular this holds for the one that
    closes the list of the parameters. -/
theorem Outline.covers_parameters {path content : String} {o : Outline} {s : Symbol}
    (h : Outline.ofSource path content = .ok o) (hs : s ∈ o.symbols) :
    ∃ language, o.language = some language ∧
      (∃ head rest, Declared language content.toList s head rest) ∧
      ∀ head gap inner after,
        Declared language content.toList s head (gap ++ '(' :: (inner ++ ')' :: after)) →
        (head ++ s.name.toList ++ gap ++ '(' :: inner ++ [')'] <+: s.signatureText.toList ↔
          GoesOn language s.column (head ++ s.name.toList ++ gap ++ '(' :: inner)
            (')' :: after)) := by
  obtain ⟨language, known, symbols⟩ := Outline.symbols_of_ofSource h
  rw [symbols] at hs
  refine ⟨language, known, exists_declared hs, fun head gap inner after declared => ?_⟩
  obtain ⟨place, -, follows, -, -, column, signature⟩ := declared.exists_place
  rw [signature, column]
  refine append_isPrefix_extentAt_iff rfl ?_
  rw [follows]
  simp

/-- Parameters on lines of their own, all of them indented. -/
theorem Outline.covers_parameters_indented :
    let s : Symbol := ⟨.function, "f", 1, 0, some "def f(\n    a,\n    b):\n    return a", true⟩
    Outline.ofSource "a.py" "def f(\n    a,\n    b):\n    return a\n" =
        .ok ⟨"a.py", some .python, [s], []⟩ ∧
      "def f(\n    a,\n    b)".toList <+: s.signatureText.toList := by
  intro s
  have parsed : Outline.ofSource "a.py" "def f(\n    a,\n    b):\n    return a\n" =
      .ok ⟨"a.py", some .python, [s], []⟩ := by
    decide +kernel
  obtain ⟨language, known, -, covers⟩ := Outline.covers_parameters parsed List.mem_cons_self
  cases known
  have declared : Declared .python "def f(\n    a,\n    b):\n    return a\n".toList s "def ".toList
      ([] ++ '(' :: ("\n    a,\n    b".toList ++ ')' :: ":\n    return a\n".toList)) := by
    decide +kernel
  have covered := (covers _ _ _ _ declared).mpr <| by
    rw [GoesOn, if_neg (by decide)]
    decide
  have same : "def ".toList ++ s.name.toList ++ [] ++ '(' :: "\n    a,\n    b".toList ++ [')'] =
      "def f(\n    a,\n    b)".toList := by
    decide
  rw [same] at covered
  exact ⟨parsed, covered⟩

/-- **A brace closed among the parameters is taken for the body**: the function has a second
    parameter, and its signature ends before it. -/
theorem Outline.cut_behind_destructured :
    let s : Symbol := ⟨.function, "f", 1, 0, some "function f(\x7b a \x7d", false⟩
    Outline.ofSource "a.ts" "function f(\x7b a \x7d, b) \x7b\x7d\n" =
        .ok ⟨"a.ts", some .typeScript, [s], []⟩ ∧
      Declared .typeScript "function f(\x7b a \x7d, b) \x7b\x7d\n".toList s "function ".toList
        ('(' :: ("\x7b a \x7d, b".toList ++ ')' :: " \x7b\x7d\n".toList)) ∧
      ¬ "function f(\x7b a \x7d, b)".toList <+: s.signatureText.toList := by
  intro s
  have parsed : Outline.ofSource "a.ts" "function f(\x7b a \x7d, b) \x7b\x7d\n" =
      .ok ⟨"a.ts", some .typeScript, [s], []⟩ := by
    decide +kernel
  exact ⟨parsed, by decide +kernel, by decide⟩

/-- A parenthesis on a line of its own, not indented, is no more part of the signature. -/
example : Outline.ofSource "a.py" "def f(\n    a,\n):\n    return a\n" =
    .ok ⟨"a.py", some .python, [⟨.function, "f", 1, 0, some "def f(\n    a,", true⟩], []⟩ := by
  decide +kernel

end CodeInsight
