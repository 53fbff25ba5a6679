import CodeInsight.Proofs.Text.Lines
import CodeInsight.Proofs.Text.Matching
import Mathlib.Logic.Relation

/-!
# Matches in parts of a text

* a text holds a match exactly if the pattern describes a piece of it (`Pattern.occursIn_iff`);
* a line feed is to its line what the beginning of the text is, so **lines put in front of a text
  lose no match in it** (`Pattern.Reaches.behindLines`, `occursIn_behindLines`);
* a pattern is `blind` to line ends if nothing depends on how a line ends: no single character of it
  is a return or a line feed, and its runs hold both or neither. **What such a pattern finds in a
  text it finds in the lines of it joined by line feeds**, and nothing else
  (`occursIn_joinLines_lines`), for taking a return out in front of a line feed, or a line feed at
  the end, neither makes nor loses a match (`occursIn_lessEnd`).
-/

namespace CodeInsight.Text

/-! ## 1. Steps over a class -/

namespace Cursor

/-- One step over a character of the class. -/
def StepOver (cls : Char → Bool) (a b : Cursor) : Prop := ∃ d, a.step? = some (d, b) ∧ cls d = true

/-- **A run reaches what steps over its class lead to.** -/
theorem mem_reach_iff {cls : Char → Bool} {a b : Cursor} :
    b ∈ reach cls a.before a.after ↔ Relation.ReflTransGen (StepOver cls) a b := by
  constructor
  · obtain ⟨before, after⟩ := a
    intro there
    induction after generalizing before with
    | nil =>
      obtain rfl := List.mem_singleton.mp there
      exact .refl
    | cons d after ih =>
      rcases List.mem_cons.mp there with rfl | further
      · exact .refl
      · split at further
        case isFalse => cases further
        case isTrue inClass => exact .head ⟨d, rfl, inClass⟩ (ih _ further)
  · intro steps
    induction steps using Relation.ReflTransGen.head_induction_on with
    | refl =>
      cases h : b.after with
      | nil => exact List.mem_singleton.mpr (by rw [← h])
      | cons d after => exact List.mem_cons.mpr (.inl (by rw [← h]))
    | @head a m first _ ih =>
      obtain ⟨d, step, inClass⟩ := first
      have passes := passes_of_step? step
      rw [passes.after, List.singleton_append, reach, if_pos inClass]
      rw [passes.before] at ih
      exact List.mem_cons_of_mem _ ih

end Cursor

namespace Pattern

variable {p : Pattern} {a b : Cursor} {s : List Char}

/-! ## 2. Matches somewhere in a text -/

theorem isSome_findFrom?_iff {before after : List Char} :
    (p.findFrom? before after).isSome = true ↔
      ∃ t rest b, after = t ++ rest ∧ p.Reaches ⟨t.reverse ++ before, rest⟩ b := by
  induction after generalizing before with
  | nil =>
    rw [findFrom?, isSome_matchAt?_iff]
    constructor
    · rintro ⟨b, h⟩
      exact ⟨[], [], b, rfl, h⟩
    · rintro ⟨t, rest, b, split, h⟩
      obtain ⟨rfl, rfl⟩ := List.append_eq_nil_iff.mp split.symm
      exact ⟨b, h⟩
  | cons c after ih =>
    rw [findFrom?]
    cases here : p.matchAt? ⟨before, c :: after⟩ with
    | some m =>
      have found := isSome_matchAt?_iff.mp (Option.isSome_of_eq_some here)
      obtain ⟨b, h⟩ := found
      exact iff_of_true rfl ⟨[], c :: after, b, rfl, h⟩
    | none =>
      have nowhere : ¬ ∃ b, p.Reaches ⟨before, c :: after⟩ b := by
        rw [← isSome_matchAt?_iff, here]
        exact Bool.false_ne_true
      rw [ih]
      constructor
      · rintro ⟨t, rest, b, rfl, h⟩
        exact ⟨c :: t, rest, b, rfl, by simpa using h⟩
      · rintro ⟨t, rest, b, split, h⟩
        rcases List.cons_eq_append_iff.mp split with ⟨rfl, rfl⟩ | ⟨t, rfl, rfl⟩
        · exact absurd ⟨b, h⟩ nowhere
        · exact ⟨t, rest, b, rfl, by simpa using h⟩

/-- **A text holds a match** exactly if the pattern describes a piece of it. -/
theorem occursIn_iff : p.occursIn s = true ↔ ∃ a b : Cursor, a.text = s ∧ p.Reaches a b := by
  rw [occursIn, find?, isSome_findFrom?_iff]
  constructor
  · rintro ⟨t, rest, b, rfl, h⟩
    exact ⟨_, b, by simp [Cursor.text], h⟩
  · rintro ⟨a, b, rfl, h⟩
    exact ⟨a.before.reverse, a.after, b, rfl, by simpa using h⟩

end Pattern

/-! ## 3. Lines in front of a text -/

/-- The place in a text that lines were put in front of. -/
def Cursor.behindLines (front : List Char) (a : Cursor) : Cursor :=
  ⟨a.before ++ '\n' :: front.reverse, a.after⟩

namespace Pattern

variable {p : Pattern} {a b : Cursor} {s : List Char}

/-- **What a pattern describes does not depend on the lines in front.** -/
theorem Reaches.behindLines (h : p.Reaches a b) (front : List Char) :
    p.Reaches (a.behindLines front) (b.behindLines front) := by
  have stepped {cls : Char → Bool} {a b : Cursor} (h : a.StepOver cls b) :
      (a.behindLines front).StepOver cls (b.behindLines front) := by
    obtain ⟨d, step, inClass⟩ := h
    obtain ⟨after, before⟩ := Cursor.passes_of_step? step
    refine ⟨d, ?_, inClass⟩
    simp [Cursor.step?, Cursor.behindLines, after, before]
  induction h with
  | nothing a => exact .nothing _
  | @lineStart a start =>
    refine .lineStart ?_
    obtain ⟨before, after⟩ := a
    cases before with
    | nil => rfl
    | cons c before => exact start
  | @wordEdge a edge =>
    refine .wordEdge ?_
    obtain ⟨before, after⟩ := a
    cases before with
    | nil => exact edge
    | cons c before => exact edge
  | one step inClass =>
    obtain ⟨d, step', inClass'⟩ := stepped ⟨_, step, inClass⟩
    exact .one step' inClass'
  | run there =>
    refine .run (Cursor.mem_reach_iff.mpr ?_)
    exact (Cursor.mem_reach_iff.mp there).lift (·.behindLines front) fun _ _ => stepped
  | seq _ _ ihp ihq => exact .seq ihp ihq
  | altLeft _ ih => exact .altLeft ih
  | altRight _ ih => exact .altRight ih
  | kept _ ih => exact .kept ih

theorem occursIn_behindLines (h : p.occursIn s = true) (front : List Char) :
    p.occursIn (front ++ '\n' :: s) = true := by
  obtain ⟨a, b, rfl, reached⟩ := occursIn_iff.mp h
  refine occursIn_iff.mpr ⟨_, _, ?_, reached.behindLines front⟩
  simp [Cursor.behindLines, Cursor.text]

end Pattern

/-! ## 4. What ends a line -/

/-- `c` belongs to the end of a line that `v` goes on with: it is a return or a line feed, with a
    line feed or nothing behind it. -/
structure EndsLine (c : Char) (v : List Char) : Prop where
  isEnd : c = '\n' ∨ c = '\r'
  behind : ∀ d ∈ v.head?, d = '\n'

/-- A place in a text that has `c` in front of `v`, and the place in the text without it: before
    both, or somewhere behind the first character of `v`. -/
inductive LessEnd (c : Char) (v : List Char) : Cursor → Cursor → Prop where
  | before (x y : List Char) : LessEnd c v ⟨x, y ++ c :: v⟩ ⟨x, y ++ v⟩
  | behind (x z w : List Char) (d : Char) (split : v = d :: (z.reverse ++ w)) :
      LessEnd c v ⟨z ++ d :: c :: x, w⟩ ⟨z ++ d :: x, w⟩

/-- As `LessEnd`, or the place between `c` and `v`. -/
def LessEndOrAt (c : Char) (v : List Char) (a a' : Cursor) : Prop :=
  LessEnd c v a a' ∨ ∃ x, a = ⟨c :: x, v⟩ ∧ a' = ⟨x, v⟩

section Places

variable {c d : Char} {u v : List Char} {a a' b b' : Cursor}

theorem EndsLine.isWord (h : EndsLine c v) : isWord c = false := by
  rcases h.isEnd with rfl | rfl
  · rfl
  · rfl

/-- A step over another character is one in both texts, one over `c` in one of them only. -/
theorem LessEnd.step (h : LessEnd c v a a') (step : a.step? = some (d, b)) :
    d = c ∧ LessEndOrAt c v b a' ∨ ∃ b', a'.step? = some (d, b') ∧ LessEnd c v b b' := by
  cases h with
  | before x y =>
    cases y with
    | nil =>
      cases step
      exact .inl ⟨rfl, .inr ⟨x, rfl, rfl⟩⟩
    | cons e y =>
      cases step
      exact .inr ⟨_, rfl, .before _ _⟩
  | behind x z w e split =>
    cases w with
    | nil => cases step
    | cons f w =>
      cases step
      exact .inr ⟨_, rfl, .behind x (d :: z) w e (by simp [split])⟩

theorem LessEndOrAt.step (h : LessEndOrAt c v a a') (step : a.step? = some (d, b)) :
    d = c ∧ LessEndOrAt c v b a' ∨ ∃ b', a'.step? = some (d, b') ∧ LessEndOrAt c v b b' := by
  rcases h with apart | ⟨x, rfl, rfl⟩
  · rcases apart.step step with beyond | ⟨b', step', next⟩
    · exact .inl beyond
    · exact .inr ⟨b', step', .inl next⟩
  · cases v with
    | nil => cases step
    | cons e v =>
      cases step
      exact .inr ⟨_, rfl, .inl (.behind x [] v d rfl)⟩

/-- The other way, `c` is stepped over on the way to what is behind it. -/
theorem LessEnd.step_back (ends : EndsLine c v) (h : LessEnd c v a a')
    (step : a'.step? = some (d, b')) :
    (∃ b, a.step? = some (d, b) ∧ LessEnd c v b b') ∨
      d = '\n' ∧ ∃ m b, a.step? = some (c, m) ∧ m.step? = some (d, b) ∧ LessEnd c v b b' := by
  cases h with
  | before x y =>
    cases y with
    | nil =>
      cases v with
      | nil => cases step
      | cons e v =>
        cases step
        exact .inr ⟨ends.behind _ rfl, _, _, rfl, rfl, .behind x [] v d rfl⟩
    | cons e y =>
      cases step
      exact .inl ⟨_, rfl, .before _ _⟩
  | behind x z w e split =>
    cases w with
    | nil => cases step
    | cons f w =>
      cases step
      exact .inl ⟨_, rfl, .behind x (d :: z) w e (by simp [split])⟩

theorem EndsLine.wordAfter (ends : EndsLine c v) (x : List Char) :
    (⟨x, v⟩ : Cursor).wordAfter = false := by
  rw [Cursor.wordAfter_eq_false_iff]
  intro d first
  obtain rfl := ends.behind d first
  rfl

/-- A word begins and ends in both texts alike. -/
theorem LessEnd.atWordEdge (ends : EndsLine c v) (h : LessEnd c v a a') :
    a.atWordEdge = a'.atWordEdge := by
  cases h with
  | before x y =>
    cases y with
    | nil =>
      have after : (⟨x, c :: v⟩ : Cursor).wordAfter = (⟨x, v⟩ : Cursor).wordAfter := by
        rw [ends.wordAfter x]
        exact ends.isWord
      rw [Cursor.atWordEdge, List.nil_append, List.nil_append, after]
      rfl
    | cons e y => rfl
  | behind x z w e split =>
    cases z with
    | nil => rfl
    | cons f z => rfl

/-- Between `c` and what is behind it no word begins or ends. -/
theorem EndsLine.atWordEdge (ends : EndsLine c v) (x : List Char) :
    (⟨c :: x, v⟩ : Cursor).atWordEdge = false := by
  have before : (⟨c :: x, v⟩ : Cursor).wordBefore = false := ends.isWord
  rw [Cursor.atWordEdge, before, ends.wordAfter]
  rfl

/-- A place of two texts, one behind the other, is in the first or behind a character of the
    second. -/
theorem cases_of_text {w : List Char} (text : a.text = u ++ w) :
    (∃ y, u = a.before.reverse ++ y ∧ a.after = y ++ w) ∨
      ∃ d z, w = d :: (z.reverse ++ a.after) ∧ a.before = z ++ d :: u.reverse := by
  rcases List.append_eq_append_iff.mp text with ⟨y, first, rest⟩ | ⟨t, before, rest⟩
  · exact .inl ⟨y, first, rest⟩
  · have before' := congrArg List.reverse before
    rw [List.reverse_reverse, List.reverse_append] at before'
    cases t with
    | nil => exact .inl ⟨[], by simpa using before.symm, rest.symm⟩
    | cons d t => exact .inr ⟨d, t.reverse, by simpa using rest, by simpa using before'⟩

/-- Every place of a text has one in the text without the end of the line. -/
theorem exists_lessEndOrAt (text : a.text = u ++ c :: v) :
    ∃ a', LessEndOrAt c v a a' ∧ a'.text = u ++ v := by
  obtain ⟨x, w⟩ := a
  rcases cases_of_text text with ⟨y, rfl, rfl⟩ | ⟨d, z, split, rfl⟩
  · exact ⟨_, .inl (.before x y), by simp [Cursor.text]⟩
  · obtain ⟨rfl, rfl⟩ := List.cons.inj split
    rcases List.eq_nil_or_concat z with rfl | ⟨z, e, rfl⟩
    · exact ⟨_, .inr ⟨u.reverse, rfl, rfl⟩, by simp [Cursor.text]⟩
    · exact ⟨⟨z ++ e :: u.reverse, w⟩, .inl (by simpa using .behind u.reverse z w e (by simp)),
        by simp [Cursor.text]⟩

/-- And every place of that text one in the text with it, in front of the end where it may be. -/
theorem exists_lessEnd (c : Char) (text : a'.text = u ++ v) :
    ∃ a, LessEnd c v a a' ∧ a.text = u ++ c :: v := by
  obtain ⟨x, w⟩ := a'
  rcases cases_of_text text with ⟨y, rfl, rfl⟩ | ⟨d, z, rfl, rfl⟩
  · exact ⟨_, .before x y, by simp [Cursor.text]⟩
  · exact ⟨_, .behind u.reverse z w d rfl, by simp [Cursor.text]⟩

end Places

namespace Pattern

variable {p : Pattern} {c : Char} {u v s : List Char} {a a' b b' : Cursor}

/-- Whether a pattern does not look at line ends: it takes no single return or line feed, and in its
    runs a return counts like a line feed. -/
def blind : Pattern → Bool
  | .nothing | .wordEdge => true
  | .lineStart => false
  | .one cls => !cls '\n' && !cls '\r'
  | .run cls _ => cls '\n' == cls '\r'
  | .seq p q | .alt p q => p.blind && q.blind
  | .kept _ p => p.blind

theorem not_inClass_of_blind {cls : Char → Bool} (ends : EndsLine c v)
    (blind : (Pattern.one cls).blind = true) : cls c = false := by
  obtain ⟨feed, return_⟩ := Bool.and_eq_true_iff.mp blind
  rcases ends.isEnd with rfl | rfl
  · exact (Bool.not_eq_true' _).mp feed
  · exact (Bool.not_eq_true' _).mp return_

/-- Places of one text go along with places of another: where a word begins or ends at the one it
    does at the other, and what is stepped over from the one is so from the other, or in several
    steps or none if it is in a run. -/
structure Along (R : Cursor → Cursor → Prop) : Prop where
  edge : ∀ {a a'}, R a a' → a.atWordEdge = true → a'.atWordEdge = true
  one : ∀ {a a' b cls}, R a a' → (Pattern.one cls).blind = true → a.StepOver cls b →
    ∃ b', R b b' ∧ a'.StepOver cls b'
  inRun : ∀ {a a' b cls}, R a a' → cls '\n' = cls '\r' → a.StepOver cls b →
    ∃ b', R b b' ∧ Relation.ReflTransGen (Cursor.StepOver cls) a' b'

/-- **Along with the places goes what a blind pattern describes.** -/
theorem Reaches.along {R : Cursor → Cursor → Prop} (go : Along R) (h : p.Reaches a b)
    (blind : p.blind = true) (places : R a a') : ∃ b', R b b' ∧ p.Reaches a' b' := by
  induction h generalizing a' with
  | nothing a => exact ⟨a', places, .nothing a'⟩
  | lineStart => cases blind
  | wordEdge edge => exact ⟨a', places, .wordEdge (go.edge places edge)⟩
  | one step inClass =>
    obtain ⟨b', next, d, step', inClass'⟩ := go.one places blind ⟨_, step, inClass⟩
    exact ⟨b', next, .one step' inClass'⟩
  | @run cls greedy a b there =>
    suffices ∃ b', R b b' ∧ Relation.ReflTransGen (Cursor.StepOver cls) a' b' by
      obtain ⟨b', next, steps⟩ := this
      exact ⟨b', next, .run (Cursor.mem_reach_iff.mpr steps)⟩
    have steps := Cursor.mem_reach_iff.mp there
    clear there
    induction steps with
    | refl => exact ⟨a', places, .refl⟩
    | tail _ last ih =>
      obtain ⟨m', at_, steps'⟩ := ih
      obtain ⟨b', next, more⟩ := go.inRun at_ (eq_of_beq blind) last
      exact ⟨b', next, steps'.trans more⟩
  | seq _ _ ihp ihq =>
    obtain ⟨first, second⟩ := Bool.and_eq_true_iff.mp blind
    obtain ⟨m', at_, hp⟩ := ihp first places
    obtain ⟨b', next, hq⟩ := ihq second at_
    exact ⟨b', next, .seq hp hq⟩
  | altLeft _ ih =>
    obtain ⟨b', next, hp⟩ := ih (Bool.and_eq_true_iff.mp blind).1 places
    exact ⟨b', next, .altLeft hp⟩
  | altRight _ ih =>
    obtain ⟨b', next, hq⟩ := ih (Bool.and_eq_true_iff.mp blind).2 places
    exact ⟨b', next, .altRight hq⟩
  | kept _ ih =>
    obtain ⟨b', next, hp⟩ := ih blind places
    exact ⟨b', next, .kept hp⟩

/-- **Without the end of a line** a blind pattern goes on as it did. -/
theorem along_lessEnd (ends : EndsLine c v) : Along (LessEndOrAt c v) where
  edge := by
    rintro a a' (apart | ⟨x, rfl, rfl⟩) edge
    · exact apart.atWordEdge ends ▸ edge
    · rw [ends.atWordEdge] at edge
      cases edge
  one := by
    rintro a a' b cls places blind ⟨d, step, inClass⟩
    rcases places.step step with ⟨rfl, -⟩ | ⟨b', step', next⟩
    · rw [not_inClass_of_blind ends blind] at inClass
      cases inClass
    · exact ⟨b', next, d, step', inClass⟩
  inRun := by
    rintro a a' b cls places - ⟨d, step, inClass⟩
    rcases places.step step with ⟨-, stay⟩ | ⟨b', step', next⟩
    · exact ⟨a', stay, .refl⟩
    · exact ⟨b', next, .single ⟨d, step', inClass⟩⟩

/-- **With the end of a line** it goes on as it did without. -/
theorem along_withEnd (ends : EndsLine c v) : Along fun a' a => LessEnd c v a a' where
  edge places edge := (places.atWordEdge ends).trans edge
  one := by
    rintro a' a b' cls places blind ⟨d, step, inClass⟩
    rcases places.step_back ends step with ⟨b, step', next⟩ | ⟨rfl, -⟩
    · exact ⟨b, next, d, step', inClass⟩
    · rw [(Bool.not_eq_true' _).mp (Bool.and_eq_true_iff.mp blind).1] at inClass
      cases inClass
  inRun := by
    rintro a' a b' cls places same ⟨d, step, inClass⟩
    rcases places.step_back ends step with ⟨b, step', next⟩ | ⟨rfl, m, b, beyond, step', next⟩
    · exact ⟨b, next, .single ⟨d, step', inClass⟩⟩
    · have both : cls c = true := by
        rcases ends.isEnd with rfl | rfl
        · exact inClass
        · exact same.symm.trans inClass
      exact ⟨b, next, .tail (.single ⟨c, beyond, both⟩) ⟨'\n', step', inClass⟩⟩

/-- **The end of a line neither makes nor loses a match** of a blind pattern. -/
theorem occursIn_lessEnd (ends : EndsLine c v) (blind : p.blind = true) (u : List Char) :
    p.occursIn (u ++ c :: v) = p.occursIn (u ++ v) := by
  rw [Bool.eq_iff_iff, occursIn_iff, occursIn_iff]
  constructor
  · rintro ⟨a, b, text, h⟩
    obtain ⟨a', places, text'⟩ := exists_lessEndOrAt text
    obtain ⟨b', -, h'⟩ := h.along (along_lessEnd ends) blind places
    exact ⟨a', b', text', h'⟩
  · rintro ⟨a', b', text, h⟩
    obtain ⟨a, places, text'⟩ := exists_lessEnd c text
    obtain ⟨b, -, h'⟩ := h.along (along_withEnd ends) blind places
    exact ⟨a, b, text', h'⟩

/-! ## 5. The lines of a text -/

/-- What a blind pattern finds behind a text it finds in the lines joined by line feeds. -/
theorem occursIn_append_endLines (blind : p.blind = true) (ps : List (List Char))
    (u : List Char) :
    p.occursIn (u ++ joinLines ps) = p.occursIn (u ++ joinLines (endLines ps)) := by
  induction ps generalizing u with
  | nil => rfl
  | cons piece ps ih =>
    cases ps with
    | nil =>
      rw [endLines]
      split
      case isTrue empty => rw [List.isEmpty_iff.mp empty]; rfl
      case isFalse => rfl
    | cons next rest =>
      have behind : ∀ t : List Char, ∀ d ∈ ('\n' :: t).head?, d = '\n' := by simp
      -- a return that ends the piece is dropped first, then the lines behind it are joined
      have dropped (t : List Char) : p.occursIn (u ++ (piece ++ '\n' :: t)) =
          p.occursIn (u ++ (dropReturn piece ++ '\n' :: t)) := by
        unfold dropReturn
        split
        case isFalse => rfl
        case isTrue last =>
          obtain ⟨front, rfl⟩ := List.getLast?_eq_some_iff.mp last
          have less := occursIn_lessEnd ⟨.inr rfl, behind t⟩ blind (u ++ front)
          simpa using less
      rw [joinLines, joinWith_cons_of_ne_nil _ _ (List.cons_ne_nil _ _), dropped, endLines]
      have further := ih (u ++ (dropReturn piece ++ ['\n']))
      simp only [List.append_assoc, List.singleton_append] at further
      rw [further]
      rcases eq_or_ne (endLines (next :: rest)) [] with none | some
      · have less := occursIn_lessEnd (v := []) ⟨.inl rfl, by simp⟩ blind (u ++ dropReturn piece)
        rw [none]
        simpa [joinWith, List.intercalate] using less
      · rw [joinLines, joinLines, joinWith_cons_of_ne_nil _ _ some]

/-- **A blind pattern finds in a text what it finds in its lines joined by line feeds.** -/
theorem occursIn_joinLines_lines (blind : p.blind = true) (s : List Char) :
    p.occursIn (joinLines (lines s)) = p.occursIn s := by
  have joined := occursIn_append_endLines blind (pieces '\n' s) []
  rw [List.nil_append, List.nil_append, joinLines, joinWith_pieces] at joined
  exact joined.symm

end Pattern

end CodeInsight.Text
