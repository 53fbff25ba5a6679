import CodeInsight.Proofs.Source.Extents
import CodeInsight.Proofs.Text.Slices
import Mathlib.Order.Bounds.Basic

/-!
# The block below a declaration

* the lines below a declaration form a block (`IsBlock`) if each is blank or indented deeper than
  the declaration and the last is not blank; the lines that the extent keeps are **the longest
  block** (`length_block_isGreatest`), and the extent goes to the end of its last line
  (`before_append_indentedExtent`);
* it is found by two places in bytes (`blockEnd?`): one goes from line feed to line feed, the other
  stays at the end of the last line that belongs to the block and is not blank. The first one always
  moves on, so the search ends, and **every cut on the way is made between characters of the text**
  (`blockEnd?_eq`, `indentedBlock?_eq`).
-/

namespace CodeInsight.Source

open CodeInsight.Text

/-! ## 1. Blocks -/

/-- `IsBlock column below n`: the first `n` of the lines below a declaration in column `column` are
    blank or indented deeper, and the last of them is not blank. -/
structure IsBlock (column : Nat) (below : List (List Char)) (n : Nat) : Prop where
  within : n ≤ below.length
  belongs : ∀ l ∈ below.take n, allBlank l = true ∨ column < indentation l
  ends : ∀ l ∈ (below.take n).getLast?, allBlank l = false

/-- The lines kept of those below a declaration. -/
def block (column : Nat) (below : List (List Char)) : List (List Char) :=
  dropBlankEnd (below.takeWhile (inBlock column))

section Blocks

variable {column n : Nat} {below : List (List Char)} {l : List Char}

theorem inBlock_iff : inBlock column l = true ↔ allBlank l = true ∨ column < indentation l := by
  rw [inBlock, Bool.or_eq_true, decide_eq_true_iff]

theorem block_isPrefix (column : Nat) (below : List (List Char)) :
    block column below <+: below :=
  (dropBlankEnd_isPrefix _).trans (List.takeWhile_prefix _)

/-- The last line kept is not blank. -/
theorem getLast?_dropBlankEnd (ls : List (List Char)) :
    ∀ l ∈ (dropBlankEnd ls).getLast?, allBlank l = false := by
  rw [dropBlankEnd, List.getLast?_reverse]
  exact head?_dropWhile allBlank ls.reverse

/-- **The lines kept are the longest block.** -/
theorem length_block_isGreatest (column : Nat) (below : List (List Char)) :
    IsGreatest {n | IsBlock column below n} (block column below).length := by
  have kept : below.take (block column below).length = block column below :=
    (List.prefix_iff_eq_take.mp (block_isPrefix column below)).symm
  constructor
  · refine ⟨(block_isPrefix column below).length_le, ?_, ?_⟩
    · rw [kept]
      intro l there
      exact inBlock_iff.mp (List.mem_takeWhile_imp ((dropBlankEnd_isPrefix _).subset there))
    · rw [kept]
      exact getLast?_dropBlankEnd _
  · intro n h
    have length : (below.take n).length = n := List.length_take_of_le h.within
    rcases List.eq_nil_or_concat (below.take n) with none | ⟨init, l, lines⟩
    · rw [none] at length
      exact length ▸ Nat.zero_le _
    · rw [List.concat_eq_append] at lines
      have notBlank : ¬ allBlank l = true := by
        rw [Bool.not_eq_true]
        exact h.ends l (by simp [lines])
      have inside : init ++ [l] <+: below.takeWhile (inBlock column) := by
        rw [← lines]
        exact isPrefix_takeWhile (List.take_prefix n below) fun l' there =>
          inBlock_iff.mpr (h.belongs l' there)
      have reached := (append_isPrefix_dropBlankEnd inside notBlank).length_le
      rw [← lines, length] at reached
      exact reached

/-! ## 2. The extent -/

/-- Lines with a line feed before each. -/
def behindFeeds (ls : List (List Char)) : List Char := ls.flatMap ('\n' :: ·)

/-- Lines put behind others. -/
theorem joinWith_append_feeds {ps : List (List Char)} (some : ps ≠ []) (ls : List (List Char)) :
    joinWith '\n' (ps ++ ls) = joinWith '\n' ps ++ behindFeeds ls := by
  induction ls generalizing ps with
  | nil => simp [behindFeeds]
  | cons l ls ih =>
    have next : ps ++ [l] ≠ [] := by simp
    rw [List.append_cons, ih next, joinWith_append _ some (List.cons_ne_nil _ _),
      joinWith_singleton, List.append_assoc]
    rfl

theorem joinWith_cons_feeds (first : List Char) (ls : List (List Char)) :
    joinWith '\n' (first :: ls) = first ++ behindFeeds ls := by
  have joined := joinWith_append_feeds (List.cons_ne_nil first []) ls
  rwa [joinWith_singleton, List.singleton_append] at joined

/-- The lines below the one that a place is in. -/
def linesBelow (place : Cursor) : List (List Char) := (pieces '\n' place.text).drop place.line

/-- What follows a place: the rest of its line, and the lines below. -/
theorem exists_first_of_place (place : Cursor) :
    ∃ first, pieces '\n' place.after = first :: linesBelow place ∧
      ∀ n, joinLines ((pieces '\n' place.text).take (place.line + n)) =
        place.before.reverse ++ joinLines (first :: (linesBelow place).take n) := by
  obtain ⟨init, last, cut, breaks⟩ := exists_pieces_last '\n' place.before.reverse
  obtain ⟨first, below, behind⟩ := exists_pieces '\n' place.after
  have line : place.line = (init ++ [last ++ first]).length := by
    rw [Cursor.line, ← List.count_reverse, breaks]
    simp
  have whole : pieces '\n' place.text = init ++ [last ++ first] ++ below := by
    rw [Cursor.text, pieces_append cut behind]
    simp
  have lines : linesBelow place = below := by
    rw [linesBelow, whole, line, List.drop_left]
  refine ⟨first, by rw [behind, lines], fun n => ?_⟩
  have before := joinWith_pieces '\n' place.before.reverse
  rw [cut] at before
  rw [whole, line, lines, List.take_length_add_append, joinLines, joinLines,
    joinWith_append_feeds (by simp), joinWith_append_last, before, joinWith_cons_feeds,
    List.append_assoc]

/-- What follows a place, and its extent, are the rest of its line and lines behind feeds. -/
theorem after_and_extent {place : Cursor} {first : List Char}
    (behind : pieces '\n' place.after = first :: linesBelow place) :
    place.after = first ++ behindFeeds (linesBelow place) ∧
      indentedExtent column place.after =
        first ++ behindFeeds (block column (linesBelow place)) := by
  have joined := joinWith_pieces '\n' place.after
  rw [behind, joinWith_cons_feeds] at joined
  refine ⟨joined.symm, ?_⟩
  rw [indentedExtent, behind]
  exact joinWith_cons_feeds _ _

/-- **The extent of a declaration** goes to the end of the longest block below it. -/
theorem before_append_indentedExtent (place : Cursor) :
    place.before.reverse ++ indentedExtent place.column place.after =
      joinLines ((pieces '\n' place.text).take
        (place.line + (block place.column (linesBelow place)).length)) := by
  obtain ⟨first, behind, joined⟩ := exists_first_of_place place
  have kept := List.prefix_iff_eq_take.mp (block_isPrefix place.column (linesBelow place))
  rw [joined, ← kept, indentedExtent, behind]
  rfl

end Blocks

/-! ## 3. The search for the end, in bytes -/

/-- The difference of two numbers, none if it would be below zero. -/
def minus? (m n : Nat) : Option Nat := if n ≤ m then some (m - n) else none

/-- The byte at which the line ends that `rest` begins with, `start` being the byte of `rest`. -/
def lineEnd (content rest : List Char) (start : Nat) : Nat :=
  ((findByte? '\n' rest).map (start + ·)).getD (utf8Length content)

/-- The end of the block of a declaration in column `column`: `cursor` is the end of the last line
    looked at and `stop` that of the last that is kept. None if a cut cannot be made. -/
def blockEnd? (content : List Char) (column cursor stop : Nat) : Option Nat :=
  if _inside : cursor < utf8Length content then
    match from? content (cursor + 1) with
    | none => none
    | some rest =>
      match slice? content (cursor + 1) (lineEnd content rest (cursor + 1)) with
      | none => none
      | some line =>
        if allBlank line then blockEnd? content column (lineEnd content rest (cursor + 1)) stop
        else match minus? (utf8Length line) (utf8Length (trimStart line)) with
          | none => none
          | some indent =>
            if indent ≤ column then some stop
            else blockEnd? content column (lineEnd content rest (cursor + 1))
              (lineEnd content rest (cursor + 1))
  else some stop
termination_by utf8Length content - cursor
decreasing_by
  all_goals
    have further : cursor < lineEnd content rest (cursor + 1) := by
      unfold lineEnd
      cases findByte? '\n' rest with
      | none => exact _inside
      | some i => simp; omega
    omega

/-- The text of a declaration that begins at a byte, with the block below it. None if a cut cannot
    be made. -/
def indentedBlock? (content : List Char) (start : Nat) : Option (List Char) := do
  let before ← upTo? content start
  let column ← minus? start (((lastByte? '\n' before).map (· + 1)).getD 0)
  let rest ← from? content start
  let stop ← blockEnd? content column (lineEnd content rest start) (lineEnd content rest start)
  slice? content start stop

section Search

variable {column stop : Nat} {l seen first : List Char} {ls : List (List Char)}

theorem minus?_append (a b : List Char) :
    minus? (utf8Length (a ++ b)) (utf8Length b) = some (utf8Length a) := by
  rw [minus?, utf8Length_append, if_pos (Nat.le_add_left _ _), Nat.add_sub_cancel]

/-- A line is indented by the blanks that are taken off its front. -/
theorem minus?_trimStart (l : List Char) :
    minus? (utf8Length l) (utf8Length (trimStart l)) = some (indentation l) := by
  have split : l.takeWhile isBlank ++ trimStart l = l := List.takeWhile_append_dropWhile
  have cut := minus?_append (l.takeWhile isBlank) (trimStart l)
  rw [split] at cut
  exact cut

/-- A line without a line feed ends where the next feed is, or with the text. -/
theorem lineEnd_eq (seen : List Char) (free : '\n' ∉ l) (ls : List (List Char)) :
    lineEnd (seen ++ (l ++ behindFeeds ls)) (l ++ behindFeeds ls) (utf8Length seen) =
      utf8Length (seen ++ l) := by
  cases ls with
  | nil =>
    rw [lineEnd, behindFeeds, List.flatMap_nil, List.append_nil, findByte?_of_not_mem free]
    rfl
  | cons next ls =>
    have feed : l ++ behindFeeds (next :: ls) = l ++ '\n' :: (next ++ behindFeeds ls) := rfl
    rw [lineEnd, feed, findByte?_append_cons free, Option.map_some, Option.getD_some,
      utf8Length_append]

theorem dropBlankEnd_cons (l : List Char) (ls : List (List Char)) :
    dropBlankEnd (l :: ls) =
      if allBlank l = true then if dropBlankEnd ls = [] then [] else l :: dropBlankEnd ls
      else l :: dropBlankEnd ls := by
  simp only [dropBlankEnd, List.reverse_cons, List.dropWhile_append, List.isEmpty_iff,
    List.reverse_eq_nil_iff]
  by_cases none : ls.reverse.dropWhile allBlank = []
  · cases blank : allBlank l with
    | true => simp [none, blank]
    | false => simp [none, blank]
  · simp [none]

/-- What the first line below adds to the block. -/
theorem block_cons (column : Nat) (l : List Char) (ls : List (List Char)) :
    block column (l :: ls) =
      if allBlank l = true then if block column ls = [] then [] else l :: block column ls
      else if indentation l ≤ column then []
      else l :: block column ls := by
  by_cases blank : allBlank l = true
  · have belongs : inBlock column l = true := inBlock_iff.mpr (.inl blank)
    rw [block, List.takeWhile_cons_of_pos belongs, dropBlankEnd_cons, if_pos blank, if_pos blank,
      block]
  by_cases shallow : indentation l ≤ column
  · have leaves : ¬ inBlock column l = true := by
      rw [inBlock_iff, not_or]
      exact ⟨blank, Nat.not_lt.mpr shallow⟩
    rw [block, List.takeWhile_cons_of_neg leaves, if_neg blank, if_pos shallow]
    rfl
  · have belongs : inBlock column l = true := inBlock_iff.mpr (.inr (Nat.lt_of_not_le shallow))
    rw [block, List.takeWhile_cons_of_pos belongs, dropBlankEnd_cons, if_neg blank, if_neg blank,
      if_neg shallow, block]

/-- **One line is looked at**: where it begins and ends the text can be cut, and behind it the
    search goes on, or ends. -/
theorem blockEnd?_line (free : '\n' ∉ l) (seen : List Char) (ls : List (List Char)) (stop : Nat) :
    blockEnd? (seen ++ behindFeeds (l :: ls)) column (utf8Length seen) stop =
      if allBlank l = true then
        blockEnd? (seen ++ '\n' :: l ++ behindFeeds ls) column (utf8Length (seen ++ '\n' :: l)) stop
      else if indentation l ≤ column then some stop
      else blockEnd? (seen ++ '\n' :: l ++ behindFeeds ls) column (utf8Length (seen ++ '\n' :: l))
        (utf8Length (seen ++ '\n' :: l)) := by
  have feed : utf8Length seen + 1 = utf8Length (seen ++ ['\n']) := by
    rw [utf8Length_append]
    rfl
  have whole : seen ++ behindFeeds (l :: ls) = seen ++ ['\n'] ++ (l ++ behindFeeds ls) := by
    simp [behindFeeds]
  have inside : utf8Length seen < utf8Length (seen ++ ['\n'] ++ (l ++ behindFeeds ls)) := by
    rw [utf8Length_append, ← feed]
    omega
  have line : slice? (seen ++ ['\n'] ++ (l ++ behindFeeds ls)) (utf8Length (seen ++ ['\n']))
      (utf8Length (seen ++ ['\n'] ++ l)) = some l := by
    rw [utf8Length_append _ l]
    exact slice?_append _ _ _
  rw [whole, blockEnd?, dif_pos inside, feed, from?_append]
  dsimp only
  rw [lineEnd_eq _ free, line]
  dsimp only
  rw [minus?_trimStart, ← List.append_assoc, ← List.append_cons]

/-- **The search ends at the end of the last line of the longest block**, and every cut on the way
    can be made. -/
theorem blockEnd?_eq (column : Nat) (free : ∀ l ∈ ls, '\n' ∉ l) (seen : List Char) (stop : Nat) :
    blockEnd? (seen ++ behindFeeds ls) column (utf8Length seen) stop =
      some (if block column ls = [] then stop
        else utf8Length (seen ++ behindFeeds (block column ls))) := by
  induction ls generalizing seen stop with
  | nil =>
    rw [blockEnd?, dif_neg (by simp [behindFeeds])]
    rfl
  | cons l ls ih =>
    obtain ⟨noFeed, others⟩ := List.forall_mem_cons.mp free
    have further : seen ++ '\n' :: l ++ behindFeeds (block column ls) =
        seen ++ behindFeeds (l :: block column ls) := by
      simp [behindFeeds]
    rw [blockEnd?_line noFeed, ih others, ih others, block_cons, further]
    split
    case isTrue =>
      split
      case isTrue => rfl
      case isFalse => rw [if_neg (List.cons_ne_nil _ _)]
    case isFalse =>
      split
      case isTrue => rfl
      case isFalse =>
        rw [if_neg (List.cons_ne_nil _ _)]
        split
        case isTrue none => simp [none, behindFeeds]
        case isFalse => rfl

/-- Begun at the end of a line, the search ends where that line and the longest block behind it
    do. -/
theorem blockEnd?_from (column : Nat) (free : ∀ l ∈ ls, '\n' ∉ l) (seen : List Char) :
    blockEnd? (seen ++ behindFeeds ls) column (utf8Length seen) (utf8Length seen) =
      some (utf8Length (seen ++ behindFeeds (block column ls))) := by
  rw [blockEnd?_eq column free]
  split
  case isTrue none => rw [none, behindFeeds, List.flatMap_nil, List.append_nil]
  case isFalse => rfl

/-- The column of a place is how far it is from the last line feed before it. -/
theorem minus?_lastByte? (place : Cursor) :
    minus? (utf8Length place.before)
      (((lastByte? '\n' place.before.reverse).map (· + 1)).getD 0) = some place.column := by
  have split : place.lineBefore ++ place.before.dropWhile (· != '\n') = place.before :=
    List.takeWhile_append_dropWhile
  have cut := minus?_append place.lineBefore (place.before.dropWhile (· != '\n'))
  rw [split] at cut
  rw [lastByte?, List.reverse_reverse, Cursor.column, ← cut]
  cases rest : place.before.dropWhile (· != '\n') with
  | nil => rfl
  | cons c before =>
    have feed : c = '\n' := by
      simpa [rest] using head?_dropWhile (· != '\n') place.before
    rw [feed, utf8Length_cons, Nat.add_comm]
    rfl

/-- **The extent is found for every place of a text.** -/
theorem indentedBlock?_eq (place : Cursor) :
    indentedBlock? place.text (utf8Length place.before) =
      some (indentedExtent place.column place.after) := by
  obtain ⟨first, behind, -⟩ := exists_first_of_place place
  obtain ⟨after, extent⟩ := after_and_extent behind
  have free (l : List Char) (there : l ∈ first :: linesBelow place) : '\n' ∉ l :=
    not_mem_of_mem_pieces '\n' place.after l (behind ▸ there)
  obtain ⟨noFeed, others⟩ := List.forall_mem_cons.mp free
  have column := minus?_lastByte? place
  rw [← utf8Length_reverse] at column ⊢
  -- the search begins at the end of the place's own line
  have line : lineEnd place.text place.after (utf8Length place.before.reverse) =
      utf8Length (place.before.reverse ++ first) := by
    rw [Cursor.text, after]
    exact lineEnd_eq _ noFeed _
  have found := blockEnd?_from place.column others (place.before.reverse ++ first)
  rw [List.append_assoc, List.append_assoc, ← after, ← extent, ← Cursor.text] at found
  have cut : slice? place.text (utf8Length place.before.reverse)
      (utf8Length (place.before.reverse ++ indentedExtent place.column place.after)) =
        some (indentedExtent place.column place.after) := by
    obtain ⟨more, rest⟩ := indentedExtent_prefix place.column place.after
    refine slice?_eq_some_iff.mpr ⟨place.before.reverse, more, ?_, rfl, rfl⟩
    rw [List.append_assoc, rest, Cursor.text]
  have before : upTo? place.text (utf8Length place.before.reverse) = some place.before.reverse :=
    upTo?_append _ _
  have rest : from? place.text (utf8Length place.before.reverse) = some place.after :=
    from?_append _ _
  simp only [indentedBlock?, before, column, rest, line, found, cut, Option.bind_eq_bind,
    Option.bind_some]

/-- **The extent of a declaration with an indented body.** For every place of a text the search for
    the end of its block ends, and each cut it makes is made between characters; what it finds is
    the text from the place to the end of the last line of the longest block: the place's own line
    and as many lines below it as are blank or indented by more bytes than stand before the place in
    its line, the last of them not blank. -/
theorem indentedExtent_block (place : Cursor) :
    indentedBlock? place.text (utf8Length place.before) =
        some (indentedExtent place.column place.after) ∧
      ∃ n, IsGreatest {n | IsBlock place.column (linesBelow place) n} n ∧
        place.before.reverse ++ indentedExtent place.column place.after =
          joinLines ((pieces '\n' place.text).take (place.line + n)) :=
  ⟨indentedBlock?_eq place, _, length_block_isGreatest _ _, before_append_indentedExtent place⟩

end Search

end CodeInsight.Source
