import CodeInsight.Proofs.Text.Lines
import Mathlib.Algebra.BigOperators.Group.Finset.Basic
import Mathlib.Algebra.GroupWithZero.Nat

/-!
# Maximal runs of a text

* a `Stretch` is a piece of a text with what is before it and behind it; it is a maximal run of a
  class (`IsRun`) if it is not empty, holds characters of the class only, and none stands next to
  it;
* `runsFrom` lists the runs that begin from a place on: it passes over what is not of the class
  (`runsFrom_skip`), and over a run as a whole (`runsFrom_run`). So **each maximal run of a text is
  listed once** (`mem_runs`, `nodup_runsFrom`), and what is counted of a text run by run is a sum
  over its maximal runs (`sum_runs_of_scan`);
* a character that is not of the class parts the runs before it from those behind it
  (`sum_runs_append_cons`).
-/

namespace CodeInsight.Text

/-- A piece of a text, with what is before it and behind it. -/
structure Stretch where
  before : List Char
  chars : List Char
  after : List Char
  deriving DecidableEq, Repr

/-- `IsRun cls s r`: `r` is a maximal run of characters of the class in `s`. -/
structure IsRun (cls : Char → Bool) (s : List Char) (r : Stretch) : Prop where
  whole : r.before ++ r.chars ++ r.after = s
  nonempty : r.chars ≠ []
  all : ∀ c ∈ r.chars, cls c = true
  begins : ∀ c ∈ r.before.getLast?, cls c = false
  ends : ∀ c ∈ r.after.head?, cls c = false

/-- Whether a run begins with a character, where `before` precedes it, last character first. -/
abbrev StartsRun (cls : Char → Bool) (before : List Char) (c : Char) : Prop :=
  cls c = true ∧ ∀ b ∈ before.head?, cls b = false

instance (cls : Char → Bool) (before : List Char) (c : Char) :
    Decidable (StartsRun cls before c) :=
  @instDecidableAnd _ _ inferInstance (Option.decidableForallMem _)

/-- The runs that begin in `after`, where `before` precedes it, last character first. -/
def runsFrom (cls : Char → Bool) : List Char → List Char → List Stretch
  | _, [] => []
  | before, c :: after =>
    if StartsRun cls before c then
      ⟨before.reverse, (c :: after).takeWhile cls, (c :: after).dropWhile cls⟩ ::
        runsFrom cls (c :: before) after
    else runsFrom cls (c :: before) after

/-- The maximal runs of a text. -/
def runs (cls : Char → Bool) (s : List Char) : Finset Stretch := (runsFrom cls [] s).toFinset

section Runs

variable {cls : Char → Bool} {before after chars s : List Char} {c d : Char} {r : Stretch}

/-! ## 1. Each run once -/

/-- A run that begins with a character is all of its class that stands there. -/
theorem isRun_iff_of_length (here : r.before.length = before.length) :
    IsRun cls (before.reverse ++ c :: after) r ↔ StartsRun cls before c ∧
      r = ⟨before.reverse, (c :: after).takeWhile cls, (c :: after).dropWhile cls⟩ := by
  constructor
  · rintro ⟨whole, nonempty, all, begins, ends⟩
    obtain ⟨front, chars, behind⟩ := r
    rw [List.append_assoc] at whole
    obtain ⟨rfl, rest⟩ := List.append_inj whole (by simpa using here)
    obtain ⟨taken, left⟩ := span_of_run all ends
    rw [rest] at taken left
    obtain ⟨c', chars, rfl⟩ := List.exists_cons_of_ne_nil nonempty
    obtain rfl := (List.cons.inj rest).1
    rw [List.getLast?_reverse] at begins
    exact ⟨⟨all _ List.mem_cons_self, begins⟩, by rw [taken, left]⟩
  · rintro ⟨⟨inClass, first⟩, rfl⟩
    refine ⟨by simp, by simp [inClass], fun b there => List.mem_takeWhile_imp there, ?_,
      head?_dropWhile cls (c :: after)⟩
    rw [List.getLast?_reverse]
    exact first

theorem mem_runsFrom :
    r ∈ runsFrom cls before after ↔
      IsRun cls (before.reverse ++ after) r ∧ before.length ≤ r.before.length := by
  induction after generalizing before with
  | nil =>
    refine ⟨fun there => (List.not_mem_nil there).elim, fun ⟨h, later⟩ => ?_⟩
    have lengths := congrArg List.length h.whole
    have some := List.length_pos_of_ne_nil h.nonempty
    simp only [List.length_append, List.length_reverse, List.length_nil] at lengths
    omega
  | cons c after ih =>
    have further : r ∈ runsFrom cls (c :: before) after ↔
        IsRun cls (before.reverse ++ c :: after) r ∧ before.length < r.before.length := by
      rw [ih, List.reverse_cons, List.append_assoc]
      rfl
    have first : r ∈ runsFrom cls before (c :: after) ↔
        (StartsRun cls before c ∧
          r = ⟨before.reverse, (c :: after).takeWhile cls, (c :: after).dropWhile cls⟩) ∨
        r ∈ runsFrom cls (c :: before) after := by
      rw [runsFrom]
      split
      case isTrue starts => rw [List.mem_cons, and_iff_right starts]
      case isFalse other => simp only [other, false_and, false_or]
    rw [first, further]
    constructor
    · rintro (here | ⟨h, later⟩)
      · have length : r.before.length = before.length := by
          rw [here.2, List.length_reverse]
        exact ⟨(isRun_iff_of_length length).mpr here, length.ge⟩
      · exact ⟨h, later.le⟩
    · rintro ⟨h, later⟩
      rcases Nat.eq_or_lt_of_le later with length | beyond
      · exact .inl ((isRun_iff_of_length length.symm).mp h)
      · exact .inr ⟨h, beyond⟩

theorem nodup_runsFrom (cls : Char → Bool) (before after : List Char) :
    (runsFrom cls before after).Nodup := by
  induction after generalizing before with
  | nil => exact List.nodup_nil
  | cons c after ih =>
    rw [runsFrom]
    split
    case isFalse => exact ih _
    case isTrue =>
      refine List.nodup_cons.mpr ⟨fun there => ?_, ih _⟩
      have later := (mem_runsFrom.mp there).2
      rw [List.length_reverse, List.length_cons] at later
      omega

/-- **The runs of a text** are its maximal runs. -/
@[simp] theorem mem_runs : r ∈ runs cls s ↔ IsRun cls s r := by
  rw [runs, List.mem_toFinset, mem_runsFrom]
  simp

/-! ## 2. Run by run -/

/-- What is not of the class is passed over. -/
theorem runsFrom_skip (apart : cls c = false) (before after : List Char) :
    runsFrom cls before (c :: after) = runsFrom cls (c :: before) after := by
  rw [runsFrom, if_neg (by simp [apart])]

/-- No run begins inside a run. -/
theorem runsFrom_inside (all : ∀ c ∈ chars, cls c = true)
    (inside : ∃ b ∈ before.head?, cls b = true) (after : List Char) :
    runsFrom cls before (chars ++ after) = runsFrom cls (chars.reverse ++ before) after := by
  induction chars generalizing before with
  | nil => rfl
  | cons c chars ih =>
    obtain ⟨inClass, rest⟩ := List.forall_mem_cons.mp all
    have goes_on : ¬ StartsRun cls before c := by
      rintro ⟨-, first⟩
      obtain ⟨b, there, inClass'⟩ := inside
      rw [first b there] at inClass'
      cases inClass'
    rw [List.cons_append, runsFrom, if_neg goes_on, ih rest ⟨c, rfl, inClass⟩, List.reverse_cons,
      List.append_assoc]
    rfl

/-- A run is passed over as a whole. -/
theorem runsFrom_run (nonempty : chars ≠ []) (all : ∀ c ∈ chars, cls c = true)
    (begins : ∀ c ∈ before.head?, cls c = false) (ends : ∀ c ∈ after.head?, cls c = false) :
    runsFrom cls before (chars ++ after) =
      ⟨before.reverse, chars, after⟩ :: runsFrom cls (chars.reverse ++ before) after := by
  obtain ⟨taken, left⟩ := span_of_run all ends
  obtain ⟨c, chars, rfl⟩ := List.exists_cons_of_ne_nil nonempty
  obtain ⟨inClass, rest⟩ := List.forall_mem_cons.mp all
  rw [List.cons_append] at taken left ⊢
  rw [runsFrom, if_pos ⟨inClass, begins⟩, taken, left, runsFrom_inside rest ⟨c, rfl, inClass⟩,
    List.reverse_cons, List.append_assoc]
  rfl

/-- What begins with a character of the class begins with as many as there are. -/
theorem exists_run (inClass : cls c = true) (after : List Char) :
    ∃ chars rest, chars ++ rest = c :: after ∧ chars ≠ [] ∧ (∀ b ∈ chars, cls b = true) ∧
      ∀ b ∈ rest.head?, cls b = false :=
  ⟨(c :: after).takeWhile cls, (c :: after).dropWhile cls, List.takeWhile_append_dropWhile,
    by simp [inClass], fun _ there => List.mem_takeWhile_imp there,
    head?_dropWhile cls (c :: after)⟩

/-- A sum over the runs of a text goes through them in their order. -/
theorem sum_runs (f : Stretch → Nat) (s : List Char) :
    ∑ r ∈ runs cls s, f r = ((runsFrom cls [] s).map f).sum :=
  List.sum_toFinset f (nodup_runsFrom cls [] s)

/-- **What is counted run by run is a sum over the runs**: a count that passes over what is not of
    the class, and adds something for each run of it. -/
theorem sum_runs_of_scan (f : Stretch → Nat) (g : List Char → List Char → Nat)
    (nil : ∀ before, g before [] = 0)
    (skip : ∀ before c after, cls c = false → g before (c :: after) = g (c :: before) after)
    (run : ∀ before chars after, chars ≠ [] → (∀ c ∈ chars, cls c = true) →
      (∀ c ∈ before.head?, cls c = false) → (∀ c ∈ after.head?, cls c = false) →
      g before (chars ++ after) =
        f ⟨before.reverse, chars, after⟩ + g (chars.reverse ++ before) after) (s : List Char) :
    g [] s = ∑ r ∈ runs cls s, f r := by
  rw [sum_runs]
  -- what is left begins with something that is not of the class, or with a whole run
  suffices ∀ n before after, after.length ≤ n →
      ((∀ c ∈ before.head?, cls c = false) ∨ ∀ c ∈ after.head?, cls c = false) →
      g before after = ((runsFrom cls before after).map f).sum from
    this s.length [] s le_rfl (.inl fun c none => nomatch none)
  intro n
  induction n with
  | zero =>
    intro before after short _
    rw [List.length_eq_zero_iff.mp (Nat.le_zero.mp short), nil]
    rfl
  | succ n ih =>
    intro before after short edge
    cases after with
    | nil =>
      rw [nil]
      rfl
    | cons c after =>
      cases inClass : cls c with
      | false =>
        rw [skip _ _ _ inClass, runsFrom_skip inClass]
        refine ih _ _ (Nat.le_of_succ_le_succ short) (.inl fun b there => ?_)
        cases there
        exact inClass
      | true =>
        have begins : ∀ b ∈ before.head?, cls b = false := by
          refine edge.resolve_right fun apart => ?_
          rw [apart c rfl] at inClass
          cases inClass
        obtain ⟨chars, rest, split, nonempty, all, ends⟩ := exists_run inClass after
        have shorter : rest.length ≤ n := by
          have lengths := congrArg List.length split
          have some := List.length_pos_of_ne_nil nonempty
          rw [List.length_append] at lengths
          omega
        rw [← split, run _ _ _ nonempty all begins ends, runsFrom_run nonempty all begins ends,
          List.map_cons, List.sum_cons, ih _ _ shorter (.inr ends)]

/-! ## 3. Two texts with something between them -/

/-- Behind what is not of the class runs begin as at the beginning of a text. -/
theorem runsFrom_append_before (apart : cls d = false) (more before after : List Char) :
    runsFrom cls (before ++ d :: more) after =
      (runsFrom cls before after).map fun r =>
        { r with before := more.reverse ++ d :: r.before } := by
  induction after generalizing before with
  | nil => rfl
  | cons c after ih =>
    have same : StartsRun cls (before ++ d :: more) c ↔ StartsRun cls before c := by
      cases before with
      | nil => simp [StartsRun, apart]
      | cons b before => rfl
    have rest := ih (c :: before)
    rw [List.cons_append] at rest
    rw [runsFrom, runsFrom, rest]
    by_cases starts : StartsRun cls before c
    · rw [if_pos starts, if_pos (same.mpr starts)]
      simp
    · rw [if_neg starts, if_neg (same.not.mpr starts)]

theorem span_append_cons (apart : cls d = false) (s t : List Char) :
    (s ++ d :: t).takeWhile cls = s.takeWhile cls ∧
      (s ++ d :: t).dropWhile cls = s.dropWhile cls ++ d :: t := by
  induction s with
  | nil => simp [apart]
  | cons c s ih =>
    cases inClass : cls c with
    | true => simp [inClass, ih.1, ih.2]
    | false => simp [inClass]

/-- What is not of the class ends the runs before it. -/
theorem runsFrom_append_cons (apart : cls d = false) (before s t : List Char) :
    runsFrom cls before (s ++ d :: t) =
      (runsFrom cls before s).map (fun r => { r with after := r.after ++ d :: t }) ++
        runsFrom cls (d :: (s.reverse ++ before)) t := by
  induction s generalizing before with
  | nil => exact runsFrom_skip apart before t
  | cons c s ih =>
    obtain ⟨taken, left⟩ := span_append_cons apart (c :: s) t
    rw [List.cons_append] at taken left ⊢
    rw [runsFrom, runsFrom, ih, taken, left]
    split
    case isTrue => simp
    case isFalse => simp

/-- **A sum over the runs of two texts** with a character between them that is not of the class, for
    what does not change with the text around. -/
theorem sum_runs_append_cons (cls : Char → Bool) (f : Stretch → Nat) (apart : cls d = false)
    (behind : ∀ r t, f { r with after := r.after ++ d :: t } = f r)
    (before : ∀ r s, f { r with before := s ++ d :: r.before } = f r) (s t : List Char) :
    ∑ r ∈ runs cls (s ++ d :: t), f r = ∑ r ∈ runs cls s, f r + ∑ r ∈ runs cls t, f r := by
  have later := runsFrom_append_before apart s.reverse [] t
  rw [List.nil_append, List.reverse_reverse] at later
  rw [sum_runs, sum_runs, sum_runs, runsFrom_append_cons apart, List.append_nil, later,
    List.map_append, List.sum_append, List.map_map, List.map_map]
  simp only [Function.comp_def, behind, before]

end Runs

end CodeInsight.Text
