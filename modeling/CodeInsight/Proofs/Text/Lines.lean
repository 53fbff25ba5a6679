import CodeInsight.Text.Lines
import CodeInsight.Text.Cursor
import Mathlib.Data.List.TakeWhile

/-!
# The lines of a text put together

* what holds of all up to some place and not of what follows is what is taken from the front
  (`span_of_run`);
* cutting two texts put together cuts each of them (`pieces_append_sep`, `pieces_append`), and there
  is one piece more than there are cuts (`length_pieces`);
* joined pieces, cut again, are the pieces (`pieces_joinWith`), and begin with any beginning of them
  (`joinWith_prefix`);
* whole lines in front of a text are the first of its lines (`lines_append_whole`);
* **from a place's line on** the lines of a text are those of what stands before the place in its
  line and of all that follows (`lines_drop`, `pieces_drop`).
-/

namespace CodeInsight.Text

/-! ## 1. What is taken from the front -/

section Front

variable {α : Type} {p : α → Bool} {taken rest whole : List α}

/-- All up to the first for which something does not hold is taken, and no more. -/
theorem span_of_run (all : ∀ a ∈ taken, p a = true) (ends : ∀ a ∈ rest.head?, p a = false) :
    (taken ++ rest).takeWhile p = taken ∧ (taken ++ rest).dropWhile p = rest := by
  rw [List.takeWhile_append_of_pos all, List.dropWhile_append_of_pos all]
  cases rest with
  | nil => simp
  | cons a rest =>
    have stop : ¬ p a = true := by simp [ends a rfl]
    rw [List.takeWhile_cons_of_neg stop, List.dropWhile_cons_of_neg stop, List.append_nil]
    exact ⟨rfl, rfl⟩

/-- All up to the first of a character is taken by taking what differs from it. -/
theorem span_of_first {d : Char} {s : List Char} (none : d ∉ s) (t : List Char) :
    (s ++ d :: t).takeWhile (· != d) = s ∧ (s ++ d :: t).dropWhile (· != d) = d :: t := by
  refine span_of_run (fun c there => ?_) (by simp)
  rw [bne_iff_ne]
  rintro rfl
  exact none there

/-- What is left does not begin with one for which it holds. -/
theorem head?_dropWhile (p : α → Bool) (whole : List α) :
    ∀ a ∈ (whole.dropWhile p).head?, p a = false := by
  intro a first
  have stop := List.head?_dropWhile_not p whole
  rw [Option.mem_def.mp first] at stop
  exact stop

/-- A beginning for all of which it holds is a beginning of what is taken. -/
theorem isPrefix_takeWhile (h : taken <+: whole) (all : ∀ a ∈ taken, p a = true) :
    taken <+: whole.takeWhile p := by
  obtain ⟨more, rfl⟩ := h
  rw [List.takeWhile_append_of_pos all]
  exact List.prefix_append _ _

end Front

/-! ## 2. Pieces -/

section Pieces

variable {d : Char} {s t last first : List Char} {init more ps qs : List (List Char)}

theorem pieces_sep (d : Char) (s : List Char) : pieces d (d :: s) = [] :: pieces d s := by
  rw [pieces, if_pos rfl]

theorem pieces_cons {c : Char} (apart : c ≠ d) (h : pieces d s = first :: more) :
    pieces d (c :: s) = (c :: first) :: more := by
  rw [pieces, if_neg apart, h]

theorem exists_pieces (d : Char) (s : List Char) : ∃ first more, pieces d s = first :: more :=
  List.exists_cons_of_ne_nil (pieces_ne_nil d s)

theorem pieces_of_not_mem (h : d ∉ s) : pieces d s = [s] := by
  induction s with
  | nil => rfl
  | cons c s ih =>
    obtain ⟨apart, rest⟩ := not_or.mp (List.mem_cons.not.mp h)
    exact pieces_cons (Ne.symm apart) (ih rest)

/-- The first piece goes up to the first cut. -/
theorem first_of_pieces (h : pieces d s = first :: more) : first = s.takeWhile (· != d) := by
  induction s generalizing first more with
  | nil =>
    cases h
    rfl
  | cons c s ih =>
    by_cases same : c = d
    · subst same
      rw [pieces_sep] at h
      cases h
      simp
    · obtain ⟨piece, others, cut⟩ := exists_pieces d s
      rw [pieces_cons same cut] at h
      cases h
      rw [ih cut, List.takeWhile_cons_of_pos (by simpa using same)]

/-- There is one piece more than there are cuts. -/
theorem length_pieces (d : Char) (s : List Char) : (pieces d s).length = s.count d + 1 := by
  induction s with
  | nil => rfl
  | cons c s ih =>
    by_cases same : c = d
    · subst same
      rw [pieces_sep, List.length_cons, ih, List.count_cons_self]
    · obtain ⟨first, more, h⟩ := exists_pieces d s
      rw [h] at ih
      rw [pieces_cons same h, List.count_cons_of_ne same, ← ih]
      rfl

theorem pieces_append_sep (d : Char) (s t : List Char) :
    pieces d (s ++ d :: t) = pieces d s ++ pieces d t := by
  induction s with
  | nil => exact pieces_sep d t
  | cons c s ih =>
    by_cases same : c = d
    · subst same
      rw [List.cons_append, pieces_sep, pieces_sep, ih]
      rfl
    · obtain ⟨first, more, h⟩ := exists_pieces d s
      rw [h] at ih
      rw [List.cons_append, pieces_cons same ih, pieces_cons same h]
      rfl

/-- Where two texts meet, the last piece of the one and the first of the other are one piece. -/
theorem pieces_append (hs : pieces d s = init ++ [last]) (ht : pieces d t = first :: more) :
    pieces d (s ++ t) = init ++ (last ++ first) :: more := by
  induction s generalizing init last with
  | nil =>
    obtain ⟨rfl, rfl⟩ : init = [] ∧ last = [] := by
      rcases init with _ | ⟨p, init⟩
      · exact ⟨rfl, ((List.cons.inj hs).1).symm⟩
      · have length := congrArg List.length hs
        simp [pieces] at length
    exact ht
  | cons c s ih =>
    by_cases same : c = d
    · subst same
      rw [pieces_sep] at hs
      rcases List.cons_eq_append_iff.mp hs with ⟨rfl, only⟩ | ⟨init, rfl, rest⟩
      · exact absurd (List.cons.inj only).2.symm (pieces_ne_nil _ _)
      · rw [List.cons_append, pieces_sep, ih rest]
        rfl
    · obtain ⟨piece, others, h⟩ := exists_pieces d s
      rw [pieces_cons same h] at hs
      rcases List.cons_eq_append_iff.mp hs with ⟨rfl, only⟩ | ⟨init, rfl, rest⟩
      · obtain ⟨rfl, rfl⟩ := List.cons.inj only
        have whole : pieces d (s ++ t) = [] ++ (piece ++ first) :: more := ih h
        exact pieces_cons same whole
      · have cut : pieces d s = piece :: init ++ [last] := by
          rw [h, rest]
          rfl
        exact pieces_cons same (ih cut)

theorem joinWith_append (d : Char) (hp : ps ≠ []) (hq : qs ≠ []) :
    joinWith d (ps ++ qs) = joinWith d ps ++ d :: joinWith d qs := by
  induction ps with
  | nil => exact absurd rfl hp
  | cons p ps ih =>
    cases ps with
    | nil => rw [List.singleton_append, joinWith_cons_of_ne_nil d p hq, joinWith_singleton]
    | cons p' ps =>
      have rest := ih (List.cons_ne_nil p' ps)
      rw [List.cons_append, joinWith_cons_of_ne_nil d p (by simp), rest,
        joinWith_cons_of_ne_nil d p (by simp), List.append_assoc, List.cons_append]

/-- Joined pieces, cut again, are the pieces. -/
theorem pieces_joinWith (some : ps ≠ []) (free : ∀ p ∈ ps, d ∉ p) :
    pieces d (joinWith d ps) = ps := by
  induction ps with
  | nil => exact absurd rfl some
  | cons p ps ih =>
    obtain ⟨first, others⟩ := List.forall_mem_cons.mp free
    rcases eq_or_ne ps [] with rfl | more
    · rw [joinWith_singleton, pieces_of_not_mem first]
    · rw [joinWith_cons_of_ne_nil d p more, pieces_append_sep, pieces_of_not_mem first,
        ih more others]
      rfl

/-- What is added to the last piece is added to the whole. -/
theorem joinWith_append_last (d : Char) (init : List (List Char)) (last t : List Char) :
    joinWith d (init ++ [last ++ t]) = joinWith d (init ++ [last]) ++ t := by
  rcases eq_or_ne init [] with rfl | some
  · simp
  · rw [joinWith_append d some (by simp), joinWith_append d some (by simp)]
    simp

/-- **Joined pieces begin with any beginning of them.** -/
theorem joinWith_prefix (d : Char) (some : ps ≠ []) (h : ps <+: qs) :
    joinWith d ps <+: joinWith d qs := by
  obtain ⟨rest, rfl⟩ := h
  rcases eq_or_ne rest [] with rfl | more
  · exact (List.append_nil ps).symm ▸ List.prefix_rfl
  · rw [joinWith_append d some more]
    exact List.prefix_append _ _

/-- The first pieces of a text, joined again, are a beginning of it. -/
theorem joinWith_take_isPrefix (d : Char) (s : List Char) (n : Nat) :
    joinWith d ((pieces d s).take n) <+: s := by
  rcases eq_or_ne ((pieces d s).take n) [] with none | some
  · rw [none]
    exact List.nil_prefix
  · have begins := joinWith_prefix d some (List.take_prefix n (pieces d s))
    rw [joinWith_pieces] at begins
    exact begins

theorem filter_joinWith {p : Char → Bool} (h : p d = false) (ps : List (List Char)) :
    (joinWith d ps).filter p = ps.flatten.filter p := by
  induction ps with
  | nil => rfl
  | cons q ps ih =>
    rcases eq_or_ne ps [] with rfl | more
    · simp
    · rw [joinWith_cons_of_ne_nil d q more, List.flatten_cons, List.filter_append,
        List.filter_cons_of_neg (by simp [h]), ih, List.filter_append]

theorem count_joinWith (some : ps ≠ []) (free : ∀ p ∈ ps, d ∉ p) :
    (joinWith d ps).count d + 1 = ps.length := by
  induction ps with
  | nil => exact absurd rfl some
  | cons p ps ih =>
    have none : p.count d = 0 := List.count_eq_zero.mpr (free p List.mem_cons_self)
    rcases eq_or_ne ps [] with rfl | more
    · rw [joinWith_singleton, none]
      rfl
    · have rest := ih more fun q hq => free q (List.mem_cons_of_mem _ hq)
      rw [joinWith_cons_of_ne_nil d p more, List.count_append, List.count_cons_self, none,
        List.length_cons, ← rest]
      omega

/-- Before the last piece there are as many as there are cuts. -/
theorem exists_pieces_last (d : Char) (t : List Char) :
    ∃ init last, pieces d t = init ++ [last] ∧ t.count d = init.length := by
  have some := pieces_ne_nil d t
  refine ⟨_, _, (List.dropLast_concat_getLast some).symm, ?_⟩
  rw [List.length_dropLast, length_pieces]
  rfl

/-- The piece that a character stands in, with the pieces before it. -/
theorem pieces_around {c : Char} (t rest : List Char) (plain : c ≠ d) :
    ∃ init last more, t.count d = init.length ∧ pieces d t = init ++ [last] ∧
      pieces d (t ++ c :: rest) = init ++ (last ++ c :: rest.takeWhile (· != d)) :: more := by
  obtain ⟨piece, more, behind⟩ := exists_pieces d rest
  obtain rfl := first_of_pieces behind
  obtain ⟨init, last, cut, breaks⟩ := exists_pieces_last d t
  exact ⟨init, last, more, breaks, cut, pieces_append cut (pieces_cons plain behind)⟩

/-- **Of a text cut in pieces, the first of them joined reach a character** that does not cut
    exactly if its piece is among them. -/
theorem prefix_joinWith_iff {c : Char} {rest : List Char} (plain : c ≠ d)
    (h : ps <+: pieces d (t ++ c :: rest)) :
    t ++ [c] <+: joinWith d ps ↔ t.count d < ps.length := by
  obtain ⟨init, last, more, breaks, cut, whole⟩ := pieces_around t rest plain
  constructor
  · intro reached
    rcases eq_or_ne ps [] with rfl | some
    · have nothing := List.prefix_nil.mp reached
      simp at nothing
    · have free : ∀ p ∈ ps, d ∉ p := fun p hp => not_mem_of_mem_pieces d _ p (h.subset hp)
      have count := count_joinWith some free
      have fewer := reached.sublist.count_le d
      rw [List.count_append] at fewer
      omega
  · intro enough
    have through : init ++ [last ++ c :: rest.takeWhile (· != d)] <+: ps := by
      refine List.prefix_of_prefix_length_le ?_ h ?_
      · rw [whole]
        exact ⟨more, by simp⟩
      · rw [List.length_append, List.length_singleton]
        omega
    have reached := joinWith_prefix d (by simp) through
    rw [joinWith_append_last, ← cut, joinWith_pieces] at reached
    exact List.IsPrefix.trans ⟨rest.takeWhile (· != d), by simp⟩ reached

/-- The pieces up to that of a character that does not cut, joined again. -/
theorem joinWith_take_pieces {c : Char} (t rest : List Char) (plain : c ≠ d) :
    joinWith d ((pieces d (t ++ c :: rest)).take (t.count d + 1)) =
      t ++ c :: rest.takeWhile (· != d) := by
  obtain ⟨init, last, more, breaks, cut, whole⟩ := pieces_around t rest plain
  rw [whole, breaks, List.take_length_add_append, List.take_succ_cons, List.take_zero,
    joinWith_append_last, ← cut, joinWith_pieces]

end Pieces

/-! ## 3. Lines -/

theorem endLines_append {ps qs : List (List Char)} (h : qs ≠ []) :
    endLines (ps ++ qs) = ps.map dropReturn ++ endLines qs := by
  induction ps with
  | nil => rfl
  | cons p ps ih =>
    obtain ⟨q, rest, hq⟩ := List.exists_cons_of_ne_nil (List.append_ne_nil_of_right_ne_nil ps h)
    rw [List.cons_append, hq, endLines, ← hq, ih]
    rfl

theorem lines_append_sep (s t : List Char) :
    lines (s ++ '\n' :: t) = (pieces '\n' s).map dropReturn ++ lines t := by
  rw [lines, pieces_append_sep, endLines_append (pieces_ne_nil _ _)]
  rfl

/-- Whether a text consists of whole lines: a line feed ends the last of them. -/
def WholeLines (t : List Char) : Prop := t = [] ∨ t.getLast? = some '\n'

/-- **Whole lines in front of a text** are the first lines of all. -/
theorem lines_append_whole {t : List Char} (whole : WholeLines t) (s : List Char) :
    lines (t ++ s) = lines t ++ lines s := by
  rcases whole with rfl | ends
  · rfl
  · obtain ⟨front, rfl⟩ := List.getLast?_eq_some_iff.mp ends
    have alone := lines_append_sep front []
    have followed := lines_append_sep front s
    rw [lines_nil, List.append_nil] at alone
    rw [alone, List.append_assoc, List.singleton_append, followed]

/-- A text that does not end with a line end has one line more than it has line feeds. -/
theorem length_lines_append {c : Char} (t : List Char) (plain : c ≠ '\n') :
    (lines (t ++ [c])).length = t.count '\n' + 1 := by
  obtain ⟨init, last, cut, breaks⟩ := exists_pieces_last '\n' t
  have final : endLines [last ++ [c]] = [last ++ [c]] := by
    simp [endLines]
  rw [lines, pieces_append cut (pieces_cons plain rfl), endLines_append (by simp), final,
    List.length_append, List.length_map, breaks]
  rfl

/-- A carriage return is no more part of a line that it ends. -/
theorem filter_dropReturn {p : Char → Bool} (h : p '\r' = false) (l : List Char) :
    (dropReturn l).filter p = l.filter p := by
  unfold dropReturn
  split
  case isFalse => rfl
  case isTrue ends =>
    obtain ⟨front, rfl⟩ := List.getLast?_eq_some_iff.mp ends
    simp [h]

/-- **Lines are pieces**, but for what ends them. -/
theorem filter_take_lines {p : Char → Bool} (h : p '\r' = false) (n : Nat) (s : List Char) :
    ((lines s).take n).flatten.filter p = ((pieces '\n' s).take n).flatten.filter p := by
  rw [lines]
  induction pieces '\n' s generalizing n with
  | nil => rfl
  | cons piece ps ih =>
    cases n with
    | zero => simp
    | succ n =>
      cases ps with
      | nil =>
        rw [endLines]
        split
        case isTrue empty => simp [List.isEmpty_iff.mp empty]
        case isFalse => rfl
      | cons next rest =>
        rw [endLines, List.take_succ_cons, List.take_succ_cons, List.flatten_cons,
          List.flatten_cons, List.filter_append, List.filter_append, filter_dropReturn h, ih]

theorem not_mem_lineBefore (place : Cursor) : '\n' ∉ place.lineBefore := by
  intro there
  have apart := List.mem_takeWhile_imp there
  simp at apart

/-- What stands before the line of a place: nothing, or lines with a line feed behind the last. -/
theorem text_before_line (place : Cursor) :
    (place.line = 1 ∧ place.text = place.lineBefore.reverse ++ place.after) ∨
      ∃ t, place.line = t.count '\n' + 2 ∧
        place.text = t ++ '\n' :: (place.lineBefore.reverse ++ place.after) := by
  have split : place.lineBefore ++ place.before.dropWhile (· != '\n') = place.before :=
    List.takeWhile_append_dropWhile
  have free : place.lineBefore.count '\n' = 0 :=
    List.count_eq_zero.mpr (not_mem_lineBefore place)
  have count := congrArg (List.count '\n') split
  rw [List.count_append, free] at count
  cases hb : place.before.dropWhile (· != '\n') with
  | nil =>
    rw [hb, List.append_nil] at split
    rw [hb] at count
    refine .inl ⟨?_, ?_⟩
    · rw [Cursor.line, ← count]
      rfl
    · rw [Cursor.text, split]
  | cons c before =>
    have break_ : c = '\n' := by
      simpa [hb] using head?_dropWhile (· != '\n') place.before
    subst break_
    rw [hb] at split count
    refine .inr ⟨before.reverse, ?_, ?_⟩
    · rw [List.count_reverse, Cursor.line, ← count, List.count_cons_self]
      omega
    · rw [Cursor.text, ← split]
      simp

/-- **The lines from a place's line on** are those of what its line holds before it and of all that
    follows. -/
theorem lines_drop (place : Cursor) :
    (lines place.text).drop (place.line - 1) = lines (place.lineBefore.reverse ++ place.after) := by
  rcases text_before_line place with ⟨first, text⟩ | ⟨t, line, text⟩
  · rw [first, text]
    rfl
  · have skipped : place.line - 1 = ((pieces '\n' t).map dropReturn).length := by
      rw [List.length_map, length_pieces, line]
      rfl
    rw [text, lines_append_sep, skipped, List.drop_left]

/-- The same for the lines that end at line feeds only. -/
theorem pieces_drop (place : Cursor) :
    (pieces '\n' place.text).drop (place.line - 1) =
      pieces '\n' (place.lineBefore.reverse ++ place.after) := by
  rcases text_before_line place with ⟨first, text⟩ | ⟨t, line, text⟩
  · rw [first, text]
    rfl
  · have skipped : place.line - 1 = (pieces '\n' t).length := by
      rw [length_pieces, line]
      rfl
    rw [text, pieces_append_sep, skipped, List.drop_left]

end CodeInsight.Text
