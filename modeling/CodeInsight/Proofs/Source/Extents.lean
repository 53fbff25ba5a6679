import CodeInsight.Proofs.Text.Lines
import CodeInsight.Source.Extent
import Mathlib.Algebra.Group.Nat.Defs

/-!
# What a declaration's extent is

* between braces (`bracedExtent_isShortest`): **the shortest text from the declaration's place on
  that ends a declaration** (`EndsDeclaration`), which is with a semicolon outside the parentheses
  and brackets opened in it or with the brace that closes the first one opened, wherever that one
  stands; and all that follows where nothing does;
* that is so as long as the open parentheses and brackets can be counted in 32 bits (`CountsFit`),
  as they can in every text of fewer than 2³¹ characters (`countsFit_of_length_lt`); what the count
  ends in any text is `EndsCounted`;
* by indentation (`prefix_indentedExtent_iff`): **it covers what stands in its own line, and what
  stands further down as long as every line on the way is blank or indented deeper**.
-/

namespace CodeInsight.Source

open CodeInsight.Text

/-! ## 1. The shortest beginning that ends something -/

/-- `q` is the shortest beginning of `s` for which `ends` holds, and all of `s` if it holds for
    none. -/
structure IsShortest (ends : List Char → Prop) (s q : List Char) : Prop where
  beginning : q <+: s
  ends_or_all : ends q ∨ q = s
  least : ∀ r, r <+: q → ends r → r = q

section Shortest

variable {ends ends' : List Char → Prop} {s q q' t : List Char} {c : Char}

theorem IsShortest.nil : IsShortest ends [] [] :=
  ⟨List.prefix_rfl, .inr rfl, fun _ h _ => List.prefix_nil.mp h⟩

theorem IsShortest.one (nothing : ¬ ends []) (h : ends [c]) : IsShortest ends (c :: s) [c] := by
  refine ⟨by simp, .inl h, fun r hr hends => ?_⟩
  rcases List.prefix_cons_iff.mp hr with rfl | ⟨r, rfl, none⟩
  · exact absurd hends nothing
  · rw [List.prefix_nil.mp none]

/-- A character is read, and what is left decides. -/
theorem IsShortest.cons (nothing : ¬ ends []) (step : ∀ r, ends (c :: r) ↔ ends' r)
    (h : IsShortest ends' s q) : IsShortest ends (c :: s) (c :: q) := by
  refine ⟨List.cons_prefix_cons.mpr ⟨rfl, h.beginning⟩, ?_, fun r hr hends => ?_⟩
  · rcases h.ends_or_all with hends | all
    · exact .inl ((step q).mpr hends)
    · exact .inr (congrArg _ all)
  · rcases List.prefix_cons_iff.mp hr with rfl | ⟨r, rfl, behind⟩
    · exact absurd hends nothing
    · rw [h.least r behind ((step r).mp hends)]

/-- **What it covers**: a beginning of the text lies in the shortest one that ends something exactly
    if nothing shorter than it ends anything. -/
theorem IsShortest.prefix_iff (h : IsShortest ends s q) (ht : t <+: s) :
    t <+: q ↔ ∀ r, r <+: t → r ≠ t → ¬ ends r := by
  constructor
  · intro covered r hr shorter hends
    have whole := h.least r (hr.trans covered) hends
    subst whole
    exact shorter (hr.eq_of_length (Nat.le_antisymm hr.length_le covered.length_le))
  · intro none
    rcases List.prefix_or_prefix_of_prefix ht h.beginning with covered | shorter
    · exact covered
    · by_cases same : q = t
      · exact same ▸ List.prefix_rfl
      · rcases h.ends_or_all with hends | all
        · exact absurd hends (none q shorter same)
        · rw [all]
          exact ht

/-- What ends the same beginnings of a text has the same shortest one. -/
theorem IsShortest.congr (same : ∀ r, r <+: s → (ends r ↔ ends' r)) (h : IsShortest ends s q) :
    IsShortest ends' s q := by
  refine ⟨h.beginning, h.ends_or_all.imp_left (same q h.beginning).mp, fun r hr holds => ?_⟩
  exact h.least r hr ((same r (hr.trans h.beginning)).mpr holds)

/-- Two beginnings that are the shortest to end something are one. -/
theorem IsShortest.unique (h : IsShortest ends s q) (h' : IsShortest ends s q') : q = q' := by
  rcases List.prefix_or_prefix_of_prefix h.beginning h'.beginning with within | within
  · rcases h.ends_or_all with holds | rfl
    · exact h'.least q within holds
    · exact within.eq_of_length_le h'.beginning.length_le
  · rcases h'.ends_or_all with holds | rfl
    · exact (h.least q' within holds).symm
    · exact (within.eq_of_length_le h.beginning.length_le).symm

/-- The shortest beginning that ends something begins every other one; where it ends nothing there
    is none at all. -/
theorem IsShortest.ends_first_or_never (h : IsShortest ends s q) :
    ends q ∧ (∀ t, t <+: s → ends t → q <+: t) ∨ q = s ∧ ∀ t, t <+: s → ¬ ends t := by
  by_cases holds : ends q
  · refine .inl ⟨holds, fun t begins there => ?_⟩
    rcases List.prefix_or_prefix_of_prefix h.beginning begins with within | within
    · exact within
    · obtain rfl := h.least t within there
      exact List.prefix_rfl
  · obtain rfl : q = s := h.ends_or_all.resolve_left holds
    exact .inr ⟨rfl, fun t begins there => holds (h.least t begins there ▸ there)⟩

end Shortest

/-! ## 2. Braces -/

/-- The parentheses and brackets opened in a text. -/
def openings (s : List Char) : Nat := s.count '(' + s.count '['

/-- The parentheses and brackets closed in a text. -/
def closings (s : List Char) : Nat := s.count ')' + s.count ']'

/-- A text that ends with a semicolon outside all parentheses and brackets opened in it, before any
    brace is opened. -/
def EndsAtSemicolon (s : List Char) : Prop :=
  ∃ r, s = r ++ [';'] ∧ '{' ∉ r ∧ openings r ≤ closings r

/-- A text that ends with the brace that closes the first one opened in it. -/
def EndsBody (s : List Char) : Prop :=
  ∃ r body, s = r ++ '{' :: (body ++ ['}']) ∧ '{' ∉ r ∧ body.count '{' = body.count '}'

/-- What ends a declaration whose body stands between braces. -/
def EndsDeclaration (s : List Char) : Prop := EndsAtSemicolon s ∨ EndsBody s

/-- The count of the parentheses and brackets open behind a text, in 32 bits. -/
def openGroups (s : List Char) : Int32 := Int32.ofInt (openings s - closings s)

/-- Whether 32 bits hold the counts of the parentheses and brackets open before the first brace. -/
def CountsFit (s : List Char) : Prop :=
  ∀ r, r <+: s → '{' ∉ r → ((openings r : Int) - closings r).natAbs < 2 ^ 31

/-- A text that ends with the brace that closes the last of `depth` open ones. -/
def Closes (depth : Nat) (s : List Char) : Prop :=
  ∃ body, s = body ++ ['}'] ∧ body.count '{' + depth = body.count '}' + 1

/-- What ends a declaration when `groups` parentheses and brackets are counted before it. -/
def EndsBehind (groups : Int32) (s : List Char) : Prop :=
  (∃ r, s = r ++ [';'] ∧ '{' ∉ r ∧ groups + openGroups r ≤ 0) ∨ EndsBody s

/-- What ends a declaration as parentheses and brackets are counted. -/
def EndsCounted (s : List Char) : Prop := EndsBehind 0 s

section Counts

variable {c : Char} {r s : List Char}

theorem openings_add_closings_le (t : List Char) : openings t + closings t ≤ t.length := by
  induction t with
  | nil => exact Nat.le_refl 0
  | cons c t ih =>
    simp only [openings, closings, List.count_cons, List.length_cons, beq_iff_eq] at ih ⊢
    grind

/-- In a text of fewer than 2³¹ characters all counts fit. -/
theorem countsFit_of_length_lt (h : s.length < 2 ^ 31) : CountsFit s := by
  intro r hr _
  have few := openings_add_closings_le r
  have shorter := hr.length_le
  omega

theorem openGroups_append (r s : List Char) :
    openGroups (r ++ s) = openGroups r + openGroups s := by
  have sum : ((openings (r ++ s) : Nat) : Int) - closings (r ++ s) =
      ((openings r : Int) - closings r) + ((openings s : Int) - closings s) := by
    simp only [openings, closings, List.count_append]
    omega
  rw [openGroups, sum, Int32.ofInt_add, openGroups, openGroups]

theorem openGroups_cons (c : Char) (r : List Char) :
    openGroups (c :: r) = openGroups [c] + openGroups r :=
  openGroups_append [c] r

theorem openGroups_opens (opens : c = '(' ∨ c = '[') : openGroups [c] = 1 := by
  rcases opens with rfl | rfl <;> rfl

theorem openGroups_closes (closes : c = ')' ∨ c = ']') : openGroups [c] = -1 := by
  rcases closes with rfl | rfl <;> rfl

theorem openGroups_plain (opens : ¬ (c = '(' ∨ c = '[')) (closes : ¬ (c = ')' ∨ c = ']')) :
    openGroups [c] = 0 := by
  rw [not_or] at opens closes
  simp [openGroups, openings, closings, opens, closes]

/-- The count says whether more groups are opened than closed, as long as it fits. -/
theorem openGroups_le_zero_iff (fits : ((openings r : Int) - closings r).natAbs < 2 ^ 31) :
    openGroups r ≤ 0 ↔ openings r ≤ closings r := by
  have value : (openGroups r).toInt = (openings r : Int) - closings r :=
    Int32.toInt_ofInt_of_le (by omega) (by omega)
  rw [Int32.le_iff_toInt_le, value, Int32.toInt_zero]
  omega

/-- As long as the counts fit, what they end is what ends a declaration. -/
theorem endsCounted_iff (fits : CountsFit s) (begins : r <+: s) :
    EndsCounted r ↔ EndsDeclaration r := by
  refine or_congr_left (exists_congr fun t => and_congr_right fun same => ?_)
  refine and_congr_right fun none => ?_
  have within : t <+: s := by
    rw [same] at begins
    exact (List.prefix_append t _).trans begins
  rw [Int32.zero_add, openGroups_le_zero_iff (fits t within none)]

end Counts

section Braces

variable {depth : Nat} {groups : Int32} {c : Char} {r s : List Char}

/-- What ends with a character either is that character, or ends with it behind its first. -/
theorem cons_eq_append_one_iff {x : Char} {P : List Char → Prop} :
    (∃ body, c :: r = body ++ [x] ∧ P body) ↔
      c = x ∧ r = [] ∧ P [] ∨ ∃ body, r = body ++ [x] ∧ P (c :: body) := by
  constructor
  · rintro ⟨body, same, holds⟩
    rcases List.cons_eq_append_iff.mp same with ⟨rfl, only⟩ | ⟨body, rfl, rfl⟩
    · cases only
      exact .inl ⟨rfl, rfl, holds⟩
    · exact .inr ⟨body, rfl, holds⟩
  · rintro (⟨rfl, rfl, holds⟩ | ⟨body, rfl, holds⟩)
    · exact ⟨[], rfl, holds⟩
    · exact ⟨c :: body, rfl, holds⟩

theorem closes_nil : ¬ Closes depth [] := by
  rintro ⟨body, same, -⟩
  simp at same

theorem closes_open : Closes depth ('{' :: r) ↔ Closes (depth + 1) r := by
  unfold Closes
  rw [cons_eq_append_one_iff]
  simp only [Char.reduceEq, false_and, false_or, List.count_cons_self, ne_eq,
    not_false_eq_true, List.count_cons_of_ne]
  constructor
  · rintro ⟨body, rfl, sum⟩
    exact ⟨body, rfl, by omega⟩
  · rintro ⟨body, rfl, sum⟩
    exact ⟨body, rfl, by omega⟩

theorem closes_close (more : 1 < depth) : Closes depth ('}' :: r) ↔ Closes (depth - 1) r := by
  unfold Closes
  rw [cons_eq_append_one_iff]
  simp only [true_and, List.count_nil, List.count_cons_self, ne_eq, Char.reduceEq,
    not_false_eq_true, List.count_cons_of_ne]
  constructor
  · rintro (⟨-, last⟩ | ⟨body, rfl, sum⟩)
    · omega
    · exact ⟨body, rfl, by omega⟩
  · rintro ⟨body, rfl, sum⟩
    exact .inr ⟨body, rfl, by omega⟩

theorem closes_cons (open_ : c ≠ '{') (close : c ≠ '}') :
    Closes depth (c :: r) ↔ Closes depth r := by
  unfold Closes
  rw [cons_eq_append_one_iff]
  simp only [close, false_and, false_or, List.count_cons_of_ne open_, List.count_cons_of_ne close]

/-- **The body of a declaration** ends with the first brace that closes the last open one. -/
theorem bodyExtent_isShortest (s : List Char) (some_open : 0 < depth) :
    IsShortest (Closes depth) s (bodyExtent depth s) := by
  induction s generalizing depth with
  | nil => exact .nil
  | cons c s ih =>
    rw [bodyExtent]
    split
    case isTrue same =>
      subst same
      exact .cons closes_nil (fun _ => closes_open) (ih (by omega))
    case isFalse open_ =>
      split
      case isTrue same =>
        subst same
        split
        case isTrue last => exact .one closes_nil ⟨[], rfl, by simp; omega⟩
        case isFalse more =>
          exact .cons closes_nil (fun _ => closes_close (by omega)) (ih (by omega))
      case isFalse close => exact .cons closes_nil (fun _ => closes_cons open_ close) (ih some_open)

theorem endsBody_open : EndsBody ('{' :: r) ↔ Closes 1 r := by
  constructor
  · rintro ⟨front, body, same, none, sum⟩
    rcases List.cons_eq_append_iff.mp same with ⟨rfl, only⟩ | ⟨front, rfl, -⟩
    · cases only
      exact ⟨body, rfl, by omega⟩
    · exact absurd List.mem_cons_self none
  · rintro ⟨body, rfl, sum⟩
    exact ⟨[], body, rfl, List.not_mem_nil, by omega⟩

theorem endsBody_cons (open_ : c ≠ '{') : EndsBody (c :: r) ↔ EndsBody r := by
  constructor
  · rintro ⟨front, body, same, none, sum⟩
    rcases List.cons_eq_append_iff.mp same with ⟨rfl, only⟩ | ⟨front, rfl, rfl⟩
    · cases only
      exact absurd rfl open_
    · exact ⟨front, body, rfl, fun there => none (List.mem_cons_of_mem _ there), sum⟩
  · rintro ⟨front, body, rfl, none, sum⟩
    exact ⟨c :: front, body, rfl, List.not_mem_cons_of_ne_of_not_mem open_.symm none, sum⟩

theorem endsBehind_nil : ¬ EndsBehind groups [] := by
  rintro (⟨r, same, -⟩ | ⟨r, body, same, -⟩) <;> simp at same

theorem endsBehind_open : EndsBehind groups ('{' :: r) ↔ Closes 1 r := by
  unfold EndsBehind
  rw [cons_eq_append_one_iff, endsBody_open]
  simp

/-- Before a brace is opened, a character that does not end the declaration opens and closes
    parentheses and brackets or nothing. -/
theorem endsBehind_cons (open_ : c ≠ '{') (goes_on : ¬ (c = ';' ∧ groups ≤ 0)) :
    EndsBehind groups (c :: r) ↔ EndsBehind (groups + openGroups [c]) r := by
  unfold EndsBehind
  rw [cons_eq_append_one_iff, endsBody_cons open_]
  refine or_congr_left ?_
  have counted (t : List Char) : groups + openGroups (c :: t) =
      groups + openGroups [c] + openGroups t := by
    rw [openGroups_cons, Int32.add_assoc]
  constructor
  · rintro (⟨rfl, -, -, low⟩ | ⟨t, rfl, none, low⟩)
    · exact absurd ⟨rfl, by simpa [openGroups, openings, closings] using low⟩ goes_on
    · rw [counted] at low
      exact ⟨t, rfl, fun there => none (List.mem_cons_of_mem _ there), low⟩
  · rintro ⟨t, rfl, none, low⟩
    refine .inr ⟨t, rfl, List.not_mem_cons_of_ne_of_not_mem open_.symm none, ?_⟩
    rw [counted]
    exact low

theorem headExtent_isShortest (groups : Int32) (s : List Char) :
    IsShortest (EndsBehind groups) s (headExtent groups s) := by
  induction s generalizing groups with
  | nil => exact .nil
  | cons c s ih =>
    have next (open_ : c ≠ '{') (goes_on : ¬ (c = ';' ∧ groups ≤ 0)) {groups' : Int32}
        (same : groups + openGroups [c] = groups') :
        IsShortest (EndsBehind groups) (c :: s) (c :: headExtent groups' s) :=
      .cons endsBehind_nil (fun _ => same ▸ endsBehind_cons open_ goes_on) (ih groups')
    rw [headExtent]
    split
    case isTrue opens =>
      have plain : c ≠ '{' ∧ c ≠ ';' := by rcases opens with rfl | rfl <;> decide
      refine next plain.1 (fun stops => plain.2 stops.1) ?_
      rw [openGroups_opens opens]
    case isFalse notOpens =>
      split
      case isTrue closes =>
        have plain : c ≠ '{' ∧ c ≠ ';' := by rcases closes with rfl | rfl <;> decide
        refine next plain.1 (fun stops => plain.2 stops.1) ?_
        rw [openGroups_closes closes, Int32.sub_eq_add_neg]
      case isFalse notCloses =>
        split
        case isTrue stops =>
          obtain ⟨rfl, low⟩ := stops
          refine .one endsBehind_nil (.inl ⟨[], rfl, List.not_mem_nil, ?_⟩)
          simpa [openGroups, openings, closings] using low
        case isFalse goes_on =>
          split
          case isTrue same =>
            subst same
            have body := bodyExtent_isShortest s (Nat.one_pos)
            exact .cons endsBehind_nil (fun _ => endsBehind_open) body
          case isFalse open_ =>
            refine next open_ goes_on ?_
            rw [openGroups_plain notOpens notCloses, Int32.add_zero]

/-- The extent of a declaration whose body stands between braces is the shortest text from its place
    on that the counts end, and all that follows where they end none. -/
theorem bracedExtent_isShortest_counted (s : List Char) :
    IsShortest EndsCounted s (bracedExtent s) :=
  headExtent_isShortest 0 s

/-- **The extent of a declaration** whose body stands between braces is the shortest text from its
    place on that ends a declaration, and all that follows where none does, as long as the counts
    fit. -/
theorem bracedExtent_isShortest (fits : CountsFit s) :
    IsShortest EndsDeclaration s (bracedExtent s) :=
  (bracedExtent_isShortest_counted s).congr fun _ begins => endsCounted_iff fits begins

end Braces

/-! ## 3. Indentation -/

section Indentation

variable {column : Nat} {c : Char} {l : List Char} {t rest : List Char} {ls qs : List (List Char)}

theorem not_break (notBlank : isBlank c = false) : c ≠ '\n' := by
  rintro rfl
  cases notBlank

/-- Blank lines at the end are left out, but none before a line that is not blank. -/
theorem append_isPrefix_dropBlankEnd (h : qs ++ [l] <+: ls) (notBlank : ¬ allBlank l = true) :
    qs ++ [l] <+: dropBlankEnd ls := by
  obtain ⟨more, rfl⟩ := h
  have kept : List.dropWhile allBlank (l :: qs.reverse) = l :: qs.reverse :=
    List.dropWhile_cons_of_neg notBlank
  rw [dropBlankEnd, List.reverse_append, List.reverse_append, List.reverse_singleton,
    List.singleton_append, List.dropWhile_append]
  split
  case isTrue =>
    rw [kept]
    simp
  case isFalse => simp

/-- What is left of the lines is a beginning of them. -/
theorem dropBlankEnd_isPrefix (ls : List (List Char)) : dropBlankEnd ls <+: ls := by
  rw [← List.reverse_suffix, dropBlankEnd, List.reverse_reverse]
  exact List.dropWhile_suffix _

/-- The lines kept of a block below a declaration reach a line with something in it exactly if that
    line and all before it belong to the block. -/
theorem lt_length_block_iff (h : qs ++ [l] <+: ls) (notBlank : ¬ allBlank l = true) :
    qs.length < (dropBlankEnd (ls.takeWhile (inBlock column))).length ↔
      ∀ l' ∈ qs ++ [l], inBlock column l' = true := by
  have kept := dropBlankEnd_isPrefix (ls.takeWhile (inBlock column))
  constructor
  · intro reached l' there
    have within := List.prefix_of_prefix_length_le h
      (kept.trans (List.takeWhile_prefix _)) (by simpa [Nat.succ_le_iff] using reached)
    exact List.mem_takeWhile_imp (kept.subset (within.subset there))
  · intro all
    have block := append_isPrefix_dropBlankEnd (isPrefix_takeWhile h all) notBlank
    simpa [Nat.succ_le_iff] using block.length_le

/-- **A declaration's extent is the beginning of the text it starts.** -/
theorem indentedExtent_prefix (column : Nat) (s : List Char) : indentedExtent column s <+: s := by
  obtain ⟨first, others, cut⟩ := exists_pieces '\n' s
  have whole := joinWith_pieces '\n' s
  rw [cut] at whole
  simp only [indentedExtent, cut]
  conv => rhs; rw [← whole]
  refine joinWith_prefix '\n' (List.cons_ne_nil _ _) (List.cons_prefix_cons.mpr ⟨rfl, ?_⟩)
  exact (dropBlankEnd_isPrefix _).trans (List.takeWhile_prefix _)

/-- **What the extent covers**: from the declaration's place up to a character that is not blank all
    is covered exactly if each line on the way, but for the declaration's first, is blank or
    indented deeper. -/
theorem prefix_indentedExtent_iff (notBlank : isBlank c = false) :
    t ++ [c] <+: indentedExtent column (t ++ c :: rest) ↔
      ∀ l ∈ ((pieces '\n' (t ++ c :: rest)).tail).take (t.count '\n'),
        inBlock column l = true := by
  obtain ⟨init, last, more, breaks, -, cut⟩ := pieces_around t rest (not_break notBlank)
  generalize rest.takeWhile (· != '\n') = piece at cut
  obtain ⟨first, others, same⟩ := exists_pieces '\n' (t ++ c :: rest)
  have kept : first :: dropBlankEnd (others.takeWhile (inBlock column)) <+:
      pieces '\n' (t ++ c :: rest) := by
    rw [same, List.cons_prefix_cons]
    exact ⟨rfl, (dropBlankEnd_isPrefix _).trans (List.takeWhile_prefix _)⟩
  rw [indentedExtent, same]
  dsimp only
  rw [prefix_joinWith_iff (not_break notBlank) kept, List.length_cons, breaks, List.tail_cons]
  rw [cut] at same
  cases init with
  | nil => simp
  | cons first' init =>
    rw [List.cons_append] at same
    obtain ⟨rfl, rfl⟩ := List.cons.inj same
    have there : ¬ allBlank (last ++ c :: piece) = true := by
      simp [allBlank, notBlank]
    have reached : init ++ [last ++ c :: piece] <+: init ++ (last ++ c :: piece) :: more :=
      ⟨more, by simp⟩
    have taken : (init ++ (last ++ c :: piece) :: more).take (init.length + 1) =
        init ++ [last ++ c :: piece] := by
      rw [List.take_length_add_append]
      rfl
    rw [List.length_cons, taken, ← lt_length_block_iff reached there]
    omega

end Indentation

end CodeInsight.Source
