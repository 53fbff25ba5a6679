import CodeInsight.Proofs.Text.Lines
import CodeInsight.Proofs.Text.Returns

/-!
# What is read, and searches that go one way

* a text is read where it stands (`reaches_text`, `passes_text`), a run up to its last character
  at most (`passes_many`, `getLast?_reach`);
* where a text stands, a search for it goes on behind it (`search_text`), and where nothing fits it
  fails (`search_eq_none`); **a greedy run goes as far as it can** if the search succeeds there or
  would fail anywhere nearer (`search_many`, `search_many1`);
* a pattern of line beginnings finds nothing inside a line (`findAllFrom_inLine`), so if no match
  goes beyond the line it begins in, **what it finds in a text is what it finds in each line**
  (`flatMap_findAll`).
-/

namespace CodeInsight.Text

/-! ## 1. Reading -/

section Passing

variable {cls : Char → Bool} {a b : Cursor} {s : String} {t : List Char} {c : Char}

namespace Cursor

/-- What is read is read character by character. -/
theorem Passes.step (h : a.Passes (c :: t) b) : ∃ x, a.step? = some (c, x) ∧ x.Passes t b := by
  refine ⟨⟨c :: a.before, t ++ b.after⟩, ?_, rfl, ?_⟩
  · rw [step?, h.after]
    rfl
  · rw [h.before]
    simp

/-- What is read of a class, up to where it ends, is all of it that follows. -/
theorem Passes.skipWhile (h : a.Passes t b) (all : ∀ c ∈ t, cls c = true)
    (stops : ∀ c ∈ b.after.head?, cls c = false) : a.skipWhile cls = b := by
  obtain ⟨taken, left⟩ := span_of_run all stops
  rw [Cursor.skipWhile, h.after, taken, left, ← h.before]

end Cursor

namespace Pattern

theorem passes_text (h : (Pattern.text s).Reaches a b) : a.Passes s.toList b := by
  unfold Pattern.text at h
  revert h
  induction s.toList generalizing a with
  | nil =>
    intro h
    cases h
    exact .refl _
  | cons c cs ih =>
    intro h
    cases h with
    | seq first rest =>
      cases first with
      | one step same =>
        have first := Cursor.passes_of_step? step
        rw [eq_of_beq same] at first
        exact first.trans (ih rest)

theorem reaches_text (h : a.Passes s.toList b) : (Pattern.text s).Reaches a b := by
  unfold Pattern.text
  generalize s.toList = t at h
  induction t generalizing a with
  | nil =>
    rw [h.eq_of_nil]
    exact .nothing a
  | cons c t ih =>
    obtain ⟨x, step, rest⟩ := h.step
    exact .seq (.one step (beq_self_eq_true c)) (ih rest)

theorem exists_reaches_seq {p q : Pattern} {a c : Cursor} (h : (Pattern.seq p q).Reaches a c) :
    ∃ b, p.Reaches a b ∧ q.Reaches b c := by
  cases h with
  | seq hp hq => exact ⟨_, hp, hq⟩

theorem passes_many (h : (many cls).Reaches a b) :
    ∃ t, a.Passes t b ∧ ∀ c ∈ t, cls c = true := by
  cases h with
  | run there => exact Cursor.passes_of_mem_reach there

theorem passes_many1 (h : (many1 cls).Reaches a b) :
    ∃ c t, a.Passes (c :: t) b ∧ ∀ c' ∈ c :: t, cls c' = true := by
  cases h with
  | seq first rest =>
    cases first with
    | @one _ _ _ c step inClass =>
      obtain ⟨t, passes, all⟩ := passes_many rest
      exact ⟨c, t, (Cursor.passes_of_step? step).trans passes,
        List.forall_mem_cons.mpr ⟨inClass, all⟩⟩

theorem reaches_many (passes : a.Passes t b) (all : ∀ c ∈ t, cls c = true) :
    (many cls).Reaches a b := by
  refine .run ?_
  induction t generalizing a with
  | nil =>
    rw [passes.eq_of_nil]
    exact mem_reach_self cls _ _
  | cons c t ih =>
    obtain ⟨first, others⟩ := List.forall_mem_cons.mp all
    obtain ⟨x, step, rest⟩ := passes.step
    have further := ih rest others
    have there := Cursor.passes_of_step? step
    rw [there.after, List.singleton_append, Cursor.reach, if_pos first]
    rw [there.before] at further
    exact List.mem_cons_of_mem _ further

theorem reaches_many1 (passes : a.Passes t b) (some : t ≠ []) (all : ∀ c ∈ t, cls c = true) :
    (many1 cls).Reaches a b := by
  obtain ⟨c, t, rfl⟩ := List.exists_cons_of_ne_nil some
  obtain ⟨first, others⟩ := List.forall_mem_cons.mp all
  obtain ⟨x, step, rest⟩ := passes.step
  exact .seq (.one step first) (reaches_many rest others)

/-- What is read as a run begins with a character of its class. -/
theorem head?_of_many1 (h : (many1 cls).Reaches a b) : ∀ c ∈ a.after.head?, cls c = true := by
  obtain ⟨c', t, passes, all⟩ := passes_many1 h
  intro c first
  rw [passes.after] at first
  cases first
  exact all c' List.mem_cons_self

/-- The farthest place of a run is behind all of its class that follows. -/
theorem getLast?_reach (cls : Char → Bool) (before after : List Char) :
    (Cursor.reach cls before after).getLast? = some (Cursor.skipWhile cls ⟨before, after⟩) := by
  induction after generalizing before with
  | nil => rfl
  | cons c after ih =>
    rw [Cursor.reach]
    split
    case isTrue inClass =>
      rw [List.getLast?_cons, ih]
      simp [Cursor.skipWhile, inClass]
    case isFalse notInClass => simp [Cursor.skipWhile, notInClass]

end Pattern

end Passing

namespace Pattern

/-! ## 2. One way through a search -/

section Searches

variable {α : Type} {p q : Pattern} {a b : Cursor} {ps : Parts} {k : Cursor → Parts → Option α}
variable {cls : Char → Bool} {s : String} {t : List Char}

theorem search_append : (p ++ q).search a ps k = p.search a ps fun b ps' => q.search b ps' k := rfl

theorem search_kept {name : String} :
    (kept name p).search a ps k = p.search a ps fun b ps' => k b ((name, a, b) :: ps') := rfl

/-- Where nothing fits a search fails. -/
theorem search_eq_none (h : ∀ b, ¬ p.Reaches a b) : p.search a ps k = none := by
  rw [Option.eq_none_iff_forall_ne_some]
  intro x found
  obtain ⟨b, _, captures, -⟩ := captures_of_search found
  exact h b captures.reaches

/-- Of two alternatives of which the first does not fit the second is searched for. -/
theorem search_alt_right (h : ∀ b, ¬ p.Reaches a b) :
    (alt p q).search a ps k = q.search a ps k := by
  rw [search, search_eq_none h]

/-- Where a text stands a search for it goes on behind it. -/
theorem search_text (reached : (Pattern.text s).Reaches a b) :
    (Pattern.text s).search a ps k = k b ps := by
  have passes := passes_text reached
  unfold Pattern.text
  generalize s.toList = t at passes
  clear reached
  induction t generalizing a with
  | nil =>
    rw [passes.eq_of_nil]
    rfl
  | cons c t ih =>
    obtain ⟨x, step, rest⟩ := passes.step
    rw [List.foldr_cons, search, search, step]
    dsimp only
    rw [if_pos (beq_self_eq_true c)]
    exact ih rest

/-- **A greedy run goes as far as it can**, if the search succeeds there or else would fail at all
    places where the run could go on. -/
theorem search_many (reached : (many cls).Reaches a b) (ends : ∀ c ∈ b.after.head?, cls c = false)
    (nearer : k b ps = none → ∀ y, (∃ c ∈ y.after.head?, cls c = true) → k y ps = none) :
    (many cls).search a ps k = k b ps := by
  obtain ⟨t, passes, all⟩ := passes_many reached
  obtain ⟨places, reach⟩ := List.getLast?_eq_some_iff.mp (getLast?_reach cls a.before a.after)
  have last : Cursor.skipWhile cls ⟨a.before, a.after⟩ = b := passes.skipWhile all ends
  rw [last] at reach
  rw [many, search, if_pos rfl, reach, List.reverse_append, List.reverse_singleton,
    List.singleton_append, List.findSome?_cons]
  cases there : k b ps with
  | some x => rfl
  | none =>
    dsimp only
    rw [List.findSome?_eq_none_iff]
    intro y hy
    have inRun : y ∈ Cursor.reach cls a.before a.after := by
      rw [reach]
      exact List.mem_append_left _ (List.mem_reverse.mp hy)
    obtain ⟨t', passed, all'⟩ := Cursor.passes_of_mem_reach inRun
    by_cases more : ∃ c ∈ y.after.head?, cls c = true
    · exact nearer there y more
    · have stops : ∀ c ∈ y.after.head?, cls c = false := by
        simpa using more
      rw [← passed.skipWhile all' stops, last, there]

/-- A run of at least one goes as far as it can, too. -/
theorem search_many1 (reached : (many1 cls).Reaches a b)
    (ends : ∀ c ∈ b.after.head?, cls c = false)
    (nearer : k b ps = none → ∀ y, (∃ c ∈ y.after.head?, cls c = true) → k y ps = none) :
    (many1 cls).search a ps k = k b ps := by
  cases reached with
  | seq first rest =>
    cases first with
    | one step inClass =>
      rw [many1, search, search, step]
      dsimp only
      rw [if_pos inClass]
      exact search_many rest ends nearer

theorem search_many1_eq_none (h : ∃ c ∈ a.after.head?, cls c = false) :
    (many1 cls).search a ps k = none := by
  refine search_eq_none fun b reached => ?_
  obtain ⟨c, first, apart⟩ := h
  rw [head?_of_many1 reached c first] at apart
  cases apart

end Searches

/-! ## 3. Line by line -/

section Lines

variable {p : Pattern} {before l s tail : List Char} {c : Char}

theorem matchAt?_eq_none_iff {a : Cursor} : p.matchAt? a = none ↔ ∀ b, ¬ p.Reaches a b := by
  rw [← Option.not_isSome_iff_eq_none, isSome_matchAt?_iff, not_exists]

theorem matchAt?_inLine (begins : p.beginsLine = true) (inLine : ∃ c ∈ before.head?, c ≠ '\n')
    (tail : List Char) : p.matchAt? ⟨before, tail⟩ = none := by
  rw [matchAt?_eq_none_iff]
  intro b reached
  obtain ⟨c, first, plain⟩ := inLine
  obtain ⟨rest, rfl⟩ := List.head?_eq_some_iff.mp first
  exact plain (eq_of_beq (atLineStart_of_beginsLine reached begins))

/-- Inside a line a pattern of line beginnings finds nothing. -/
theorem findAllFrom_inLine (begins : p.beginsLine = true)
    (inLine : ∃ c ∈ before.head?, c ≠ '\n') (whole : '\n' ∉ l) (tail : List Char) :
    p.findAllFrom 0 before (l ++ tail) = p.findAllFrom 0 (l.reverse ++ before) tail := by
  induction l generalizing before with
  | nil => rfl
  | cons c l ih =>
    obtain ⟨plain, rest⟩ := not_or.mp (List.mem_cons.not.mp whole)
    rw [List.cons_append, findAllFrom, matchAt?_inLine begins inLine]
    dsimp only
    rw [ih ⟨c, rfl, Ne.symm plain⟩ rest, List.reverse_cons, List.append_assoc]
    rfl

/-- A pattern's match at the place reads something, and nothing beyond the line `l`. -/
def StaysIn (p : Pattern) (l : List Char) (a : Cursor) : Prop :=
  ∀ m ∈ p.matchAt? a, ∃ t, t ≠ [] ∧ t <+: l ∧ a.Passes t m.stop

/-- The matches from the next character on. -/
def findAllBehind (p : Pattern) (a : Cursor) : List Match :=
  match a.after with
  | [] => []
  | c :: after => p.findAllFrom 0 (c :: a.before) after

theorem findAllFrom_of_none {a : Cursor} (none : p.matchAt? a = none) :
    p.findAllFrom 0 a.before a.after = p.findAllBehind a := by
  obtain ⟨before, after⟩ := a
  cases after with
  | nil => rw [findAllFrom, none]; rfl
  | cons c after => rw [findAllFrom, none]; rfl

/-- What a pattern of line beginnings finds in a line is what it finds where the line begins. -/
theorem findAllFrom_line (begins : p.beginsLine = true) (whole : '\n' ∉ l)
    (stays : p.StaysIn l ⟨before, l ++ tail⟩) :
    p.findAllFrom 0 before (l ++ tail) = (p.matchAt? ⟨before, l ++ tail⟩).toList ++
      p.findAllBehind ⟨l.reverse ++ before, tail⟩ := by
  have inLine {t : List Char} (read : t ≠ []) (part : t <+: l) :
      ∃ c ∈ (t.reverse ++ before).head?, c ≠ '\n' := by
    refine ⟨t.getLast read, ?_, fun feed => ?_⟩
    · rw [List.head?_append, List.head?_reverse, List.getLast?_eq_some_getLast read]
      rfl
    · exact whole (part.subset (feed ▸ List.getLast_mem read))
  have behind {t rest : List Char} (read : t ≠ []) (parts : t ++ rest = l) :
      p.findAllFrom 0 (t.reverse ++ before) (rest ++ tail) =
        p.findAllBehind ⟨l.reverse ++ before, tail⟩ := by
    subst parts
    have free : '\n' ∉ rest := fun feed => whole (List.mem_append_right t feed)
    have last := inLine (List.append_ne_nil_of_left_ne_nil read rest) List.prefix_rfl
    rw [findAllFrom_inLine begins (inLine read (List.prefix_append t rest)) free,
      ← findAllFrom_of_none (matchAt?_inLine begins last tail), List.reverse_append,
      List.append_assoc]
  cases found : p.matchAt? ⟨before, l ++ tail⟩ with
  | none =>
    cases l with
    | nil => exact findAllFrom_of_none found
    | cons c rest =>
      rw [findAllFrom_of_none found]
      exact behind (List.cons_ne_nil c []) rfl
  | some m =>
    obtain ⟨t, read, ⟨rest, parts⟩, passes⟩ := stays m found
    obtain ⟨c, t', rfl⟩ := List.exists_cons_of_ne_nil read
    have stop : m.stop = ⟨(c :: t').reverse ++ before, rest ++ tail⟩ := by
      refine passes.unique ⟨?_, rfl⟩
      rw [← parts, List.append_assoc]
    have line : l ++ tail = c :: (t' ++ rest ++ tail) := by
      rw [← parts]
      rfl
    rw [line] at found passes ⊢
    rw [findAllFrom_of_matchAt? found passes, if_neg read, stop, behind read parts]
    rfl

/-- **Line by line.** If no match goes beyond the line it begins in, what a pattern of line
    beginnings finds in a text is what it finds in each line. -/
theorem flatMap_findAll {β : Type} (begins : p.beginsLine = true) (f : Match → List β)
    (g : List Char → List β)
    (here : ∀ l ∈ pieces '\n' s, ∀ before tail, (⟨before, l ++ tail⟩ : Cursor).atLineStart = true →
      (∀ c ∈ tail.head?, c = '\n') →
        (p.matchAt? ⟨before, l ++ tail⟩).toList.flatMap f = g l ∧
          p.StaysIn l ⟨before, l ++ tail⟩) :
    (p.findAll s).flatMap f = (pieces '\n' s).flatMap g := by
  suffices h : ∀ before, (⟨before, s⟩ : Cursor).atLineStart = true →
      (p.findAllFrom 0 before s).flatMap f = (pieces '\n' s).flatMap g from h [] rfl
  have parts := joinWith_pieces '\n' s
  have free := not_mem_of_mem_pieces '\n' s
  have some := pieces_ne_nil '\n' s
  generalize pieces '\n' s = ls at here parts free some
  subst parts
  induction ls with
  | nil => exact absurd rfl some
  | cons l ls ih =>
    intro before start
    obtain ⟨whole, others⟩ := List.forall_mem_cons.mp free
    obtain ⟨first, rest⟩ := List.forall_mem_cons.mp here
    rcases eq_or_ne ls [] with rfl | more
    · rw [joinWith_singleton] at start ⊢
      rw [← List.append_nil l] at start ⊢
      obtain ⟨found, stays⟩ := first before [] start nofun
      rw [findAllFrom_line begins whole stays, List.flatMap_append, found, List.append_nil]
      rfl
    · rw [joinWith_cons_of_ne_nil '\n' l more] at start ⊢
      obtain ⟨found, stays⟩ := first before _ start (by simp)
      rw [findAllFrom_line begins whole stays, List.flatMap_append, found, List.flatMap_cons]
      exact congrArg _ (ih rest others more _ rfl)

end Lines

end Pattern

end CodeInsight.Text
