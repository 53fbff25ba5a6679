import CodeInsight.Proofs.Text.Matching
import Mathlib.Data.List.TakeWhile

/-!
# Carriage returns in front of line feeds

* `withReturns` puts a carriage return in front of each line feed of a text, and a place moves with
  its text (`Cursor.withReturns`), maybe with one more return at the end of all; line and column of
  the place stay (`Cursor.line_withReturns`, `Cursor.column_withReturns`);
* a search may now stop between a return and its line feed as well. How it goes on from there is
  told beforehand for each pattern (`Pattern.stance`, `Pattern.stance_holds`), and a pattern that is
  `Steady` **finds in the text with returns what it finds in the text** (`search_withReturns`,
  `findAll_withReturns`).
-/

namespace CodeInsight.Text

/-! ## 1. Texts -/

/-- The text with a carriage return in front of each line feed. -/
def withReturns (s : List Char) : List Char :=
  s.flatMap fun c => if c = '\n' then ['\r', '\n'] else [c]

/-- The same for a text whose last character comes first. -/
def returnsBefore (s : List Char) : List Char :=
  s.flatMap fun c => if c = '\n' then ['\n', '\r'] else [c]

section Texts

variable {s t : List Char} {c : Char} {p : Char → Bool}

@[simp] theorem withReturns_nil : withReturns [] = [] := rfl

@[simp] theorem withReturns_break (s : List Char) :
    withReturns ('\n' :: s) = '\r' :: '\n' :: withReturns s := rfl

theorem withReturns_cons (s : List Char) (h : c ≠ '\n') :
    withReturns (c :: s) = c :: withReturns s := by
  simp [withReturns, h]

@[simp] theorem withReturns_append (s t : List Char) :
    withReturns (s ++ t) = withReturns s ++ withReturns t :=
  List.flatMap_append

theorem withReturns_eq_nil_iff : withReturns s = [] ↔ s = [] := by
  cases s with
  | nil => simp
  | cons c s =>
    by_cases feed : c = '\n'
    · simp [feed]
    · simp [withReturns_cons s feed]

theorem withReturns_of_not_mem (h : '\n' ∉ s) : withReturns s = s := by
  induction s with
  | nil => rfl
  | cons c s ih =>
    obtain ⟨first, rest⟩ := not_or.mp (List.mem_cons.not.mp h)
    rw [withReturns_cons s (Ne.symm first), ih rest]

@[simp] theorem returnsBefore_nil : returnsBefore [] = [] := rfl

@[simp] theorem returnsBefore_break (s : List Char) :
    returnsBefore ('\n' :: s) = '\n' :: '\r' :: returnsBefore s := rfl

theorem returnsBefore_cons (s : List Char) (h : c ≠ '\n') :
    returnsBefore (c :: s) = c :: returnsBefore s := by
  simp [returnsBefore, h]

theorem returnsBefore_append (s t : List Char) :
    returnsBefore (s ++ t) = returnsBefore s ++ returnsBefore t :=
  List.flatMap_append

theorem reverse_withReturns (s : List Char) :
    (withReturns s).reverse = returnsBefore s.reverse := by
  induction s with
  | nil => rfl
  | cons c s ih =>
    rw [List.reverse_cons, returnsBefore_append, ← ih]
    by_cases same : c = '\n'
    · subst same
      simp [returnsBefore]
    · rw [withReturns_cons s same]
      simp [returnsBefore, same]

/-- Of a class that holds returns and line feeds or neither, the same is taken off the front. -/
theorem takeWhile_withReturns (same : p '\r' = p '\n') (s : List Char) :
    (withReturns s).takeWhile p = withReturns (s.takeWhile p) ∧
      (withReturns s).dropWhile p = withReturns (s.dropWhile p) := by
  induction s with
  | nil => exact ⟨rfl, rfl⟩
  | cons c s ih =>
    by_cases feed : c = '\n'
    · subst feed
      cases inClass : p '\n' with
      | false => simp [same, inClass]
      | true => simp [same, inClass, ih.1, ih.2]
    · rw [withReturns_cons s feed]
      cases inClass : p c with
      | false => simp [inClass, withReturns_cons s feed]
      | true => simp [inClass, withReturns_cons _ feed, ih.1, ih.2]

end Texts

/-! ## 2. Places -/

/-- The place in the text with returns, and with `tail` behind it. -/
def Cursor.withReturns (tail : List Char) (a : Cursor) : Cursor :=
  ⟨returnsBefore a.before, Text.withReturns a.after ++ tail⟩

/-- The parts of a match at their places in the text with returns. -/
def Parts.withReturns (tail : List Char) (ps : Parts) : Parts :=
  ps.map fun part => (part.1, part.2.1.withReturns tail, part.2.2.withReturns tail)

/-- A match in the text with returns. -/
def Match.withReturns (tail : List Char) (m : Match) : Match :=
  ⟨m.start.withReturns tail, m.stop.withReturns tail, Parts.withReturns tail m.parts⟩

namespace Cursor

variable {a b : Cursor} {s tail : List Char}

theorem Passes.withReturns (h : a.Passes s b) :
    (a.withReturns tail).Passes (Text.withReturns s) (b.withReturns tail) := by
  constructor
  · simp [Cursor.withReturns, h.after]
  · simp only [Cursor.withReturns, h.before]
    rw [returnsBefore_append, reverse_withReturns]

theorem atLineStart_withReturns (a : Cursor) :
    (a.withReturns tail).atLineStart = a.atLineStart := by
  obtain ⟨before, after⟩ := a
  cases before with
  | nil => rfl
  | cons c before =>
    by_cases feed : c = '\n'
    · subst feed
      rfl
    · simp [Cursor.withReturns, atLineStart, returnsBefore_cons before feed]

/-- **Returns do not change the line of a place.** -/
theorem line_withReturns (a : Cursor) : (a.withReturns tail).line = a.line := by
  obtain ⟨before, after⟩ := a
  simp only [Cursor.withReturns, line]
  induction before with
  | nil => rfl
  | cons c before ih =>
    by_cases feed : c = '\n'
    · subst feed
      simpa using ih
    · simpa [returnsBefore_cons before feed, feed] using ih

theorem lineBefore_withReturns (a : Cursor) : (a.withReturns tail).lineBefore = a.lineBefore := by
  obtain ⟨before, after⟩ := a
  simp only [Cursor.withReturns, lineBefore]
  induction before with
  | nil => rfl
  | cons c before ih =>
    by_cases feed : c = '\n'
    · subst feed
      rfl
    · simpa [returnsBefore_cons before feed, feed] using ih

/-- **Returns do not change the column of a place.** -/
theorem column_withReturns (a : Cursor) : (a.withReturns tail).column = a.column := by
  rw [column, column, lineBefore_withReturns]

theorem skipWhile_withReturns {cls : Char → Bool} (same : cls '\r' = cls '\n') (a : Cursor) :
    (a.withReturns []).skipWhile cls = (a.skipWhile cls).withReturns [] := by
  obtain ⟨taken, left⟩ := takeWhile_withReturns same a.after
  simp only [Cursor.withReturns, skipWhile, List.append_nil, taken, left, reverse_withReturns,
    returnsBefore_append]

/-- What stands beside a place is no word character where it is a return instead of a line feed. -/
theorem atWordEdge_withReturns (ends : tail = [] ∨ tail = ['\r']) (a : Cursor) :
    (a.withReturns tail).atWordEdge = a.atWordEdge := by
  obtain ⟨before, after⟩ := a
  have left : (Cursor.withReturns tail ⟨before, after⟩).wordBefore =
      (⟨before, after⟩ : Cursor).wordBefore := by
    cases before with
    | nil => rfl
    | cons c before =>
      by_cases feed : c = '\n'
      · subst feed
        rfl
      · simp [Cursor.withReturns, wordBefore, returnsBefore_cons before feed]
  have right : (Cursor.withReturns tail ⟨before, after⟩).wordAfter =
      (⟨before, after⟩ : Cursor).wordAfter := by
    cases after with
    | nil =>
      rcases ends with rfl | rfl
      · rfl
      · rfl
    | cons c after =>
      by_cases feed : c = '\n'
      · subst feed
        rfl
      · simp [Cursor.withReturns, wordAfter, withReturns_cons after feed]
  rw [atWordEdge, atWordEdge, left, right]

end Cursor

/-! ## 3. Between a return and its line feed -/

/-- What is known of how a search goes on between a return and its line feed, from the least that
    can be known: it succeeds only if it does behind the line feed, it does the same as behind the
    line feed, or it fails. -/
inductive Stance where
  | unknown
  | meek
  | faithful
  | refuses
  deriving DecidableEq

namespace Stance

variable {α : Type} {k k' : Cursor → Parts → Option α} {σ τ : Stance}

/-- What a stance says of a search. Behind a return at the end of all, it never succeeds. -/
def Holds : Stance → (Cursor → Parts → Option α) → Prop
  | unknown, _ => True
  | meek, k =>
    (∀ x y ps, k ⟨'\n' :: '\r' :: x, y⟩ ps = none → k ⟨'\r' :: x, '\n' :: y⟩ ps = none) ∧
      ∀ x ps, k ⟨'\r' :: x, []⟩ ps = none
  | faithful, k =>
    (∀ x y ps, k ⟨'\r' :: x, '\n' :: y⟩ ps = k ⟨'\n' :: '\r' :: x, y⟩ ps) ∧
      ∀ x ps, k ⟨'\r' :: x, []⟩ ps = none
  | refuses, k =>
    (∀ x y ps, k ⟨'\r' :: x, '\n' :: y⟩ ps = none) ∧ ∀ x ps, k ⟨'\r' :: x, []⟩ ps = none

/-- All but the first stance are at least meek. -/
theorem Holds.meek (h : σ.Holds k) (known : σ ≠ unknown) : Stance.meek.Holds k := by
  cases σ with
  | unknown => exact absurd rfl known
  | meek => exact h
  | faithful => exact ⟨fun x y ps none => (h.1 x y ps).trans none, h.2⟩
  | refuses => exact ⟨fun x y ps _ => h.1 x y ps, h.2⟩

/-- What is known of trying one search and then another. -/
def meet (σ τ : Stance) : Stance :=
  if σ = τ then σ else if σ = unknown ∨ τ = unknown then unknown else meek

theorem Holds.orElse (h : σ.Holds k) (h' : τ.Holds k') :
    (σ.meet τ).Holds fun a ps => (k a ps).or (k' a ps) := by
  have both (h : Stance.meek.Holds k) (h' : Stance.meek.Holds k') :
      Stance.meek.Holds fun a ps => (k a ps).or (k' a ps) := by
    refine ⟨fun x y ps none => ?_, fun x ps => ?_⟩
    · rw [Option.or_eq_none_iff] at none ⊢
      exact ⟨h.1 x y ps none.1, h'.1 x y ps none.2⟩
    · simp only [h.2 x ps, h'.2 x ps, Option.or_none]
  unfold meet
  split
  case isTrue same =>
    subst same
    cases σ with
    | unknown => trivial
    | meek => exact both h h'
    | faithful =>
      refine ⟨fun x y ps => ?_, fun x ps => ?_⟩
      · simp only [h.1 x y ps, h'.1 x y ps]
      · simp only [h.2 x ps, h'.2 x ps, Option.or_none]
    | refuses =>
      refine ⟨fun x y ps => ?_, fun x ps => ?_⟩
      · simp only [h.1 x y ps, h'.1 x y ps, Option.or_none]
      · simp only [h.2 x ps, h'.2 x ps, Option.or_none]
  case isFalse different =>
    split
    case isTrue => trivial
    case isFalse known =>
      obtain ⟨first, second⟩ := not_or.mp known
      exact both (h.meek first) (h'.meek second)

end Stance

namespace Pattern

open Stance

/-- What is known of a search for the pattern, by what is known of how it goes on behind. -/
def stance : Pattern → Stance → Stance
  | .nothing, σ => σ
  | .lineStart, _ => refuses
  | .wordEdge, _ => refuses
  | .one cls, _ => if cls '\n' then unknown else refuses
  | .run cls greedy, σ =>
    if cls '\n' then if greedy && σ ≠ unknown then faithful else unknown
    else if σ = refuses then refuses else unknown
  | .seq p q, σ => p.stance (q.stance σ)
  | .alt p q, σ => (p.stance σ).meet (q.stance σ)
  | .kept _ p, σ =>
    if p.stance (if σ = refuses then refuses else unknown) = refuses then refuses else unknown

/-- Where a named part is kept, only failing is known not to depend on it. -/
theorem kept_holds {α : Type} {k : Cursor → Parts → Option α} {σ : Stance} (h : σ.Holds k)
    (name : String) (a : Cursor) :
    (if σ = refuses then refuses else unknown).Holds fun b ps => k b ((name, a, b) :: ps) := by
  split
  case isTrue same =>
    subst same
    exact ⟨fun x y ps => h.1 x y _, fun x ps => h.2 x _⟩
  case isFalse => trivial

theorem mem_reach_self (cls : Char → Bool) (before after : List Char) :
    (⟨before, after⟩ : Cursor) ∈ Cursor.reach cls before after := by
  cases after with
  | nil => exact List.mem_singleton_self _
  | cons c after =>
    rw [Cursor.reach]
    exact List.mem_cons_self

/-- **A greedy run that is tried between a return and its line feed** comes to nothing else than
    behind the line feed. -/
theorem findSome?_between {α : Type} {k : Cursor → Parts → Option α} {cls : Char → Bool}
    (meek : Stance.meek.Holds k) (x y : List Char) (ps : Parts) :
    ((Cursor.reach cls ('\n' :: '\r' :: x) y).reverse ++
        [(⟨'\r' :: x, '\n' :: y⟩ : Cursor)]).findSome? (k · ps) =
      (Cursor.reach cls ('\n' :: '\r' :: x) y).reverse.findSome? (k · ps) := by
  rw [List.findSome?_append]
  cases behind : (Cursor.reach cls ('\n' :: '\r' :: x) y).reverse.findSome? (k · ps) with
  | some r => rfl
  | none =>
    rw [List.findSome?_eq_none_iff] at behind
    have next := behind _ (List.mem_reverse.mpr (mem_reach_self cls _ _))
    simp [meek.1 x y ps next]

/-- **What is known of a search is true.** -/
theorem stance_holds {α : Type} {k : Cursor → Parts → Option α} {σ : Stance} (p : Pattern)
    (h : σ.Holds k) : (p.stance σ).Holds fun a ps => p.search a ps k := by
  induction p generalizing σ k with
  | nothing => exact h
  | lineStart => exact ⟨fun x y ps => rfl, fun x ps => rfl⟩
  | wordEdge => exact ⟨fun x y ps => rfl, fun x ps => rfl⟩
  | one cls =>
    rw [stance]
    split
    case isTrue => trivial
    case isFalse feed => exact ⟨fun x y ps => if_neg feed, fun x ps => rfl⟩
  | run cls greedy =>
    rw [stance]
    split
    case isTrue feed =>
      split
      case isFalse => trivial
      case isTrue known =>
        simp only [Bool.and_eq_true, decide_eq_true_eq] at known
        obtain ⟨rfl, known⟩ := known
        have meek := h.meek known
        refine ⟨fun x y ps => ?_, fun x ps => ?_⟩
        · simp only [search, if_true]
          rw [Cursor.reach, if_pos feed, List.reverse_cons]
          exact findSome?_between meek x y ps
        · simp [search, Cursor.reach, meek.2 x ps]
    case isFalse feed =>
      split
      case isFalse => trivial
      case isTrue known =>
        subst known
        refine ⟨fun x y ps => ?_, fun x ps => ?_⟩
        · simp [search, Cursor.reach, feed, h.1 x y ps]
        · simp [search, Cursor.reach, h.2 x ps]
  | seq p q ihp ihq => exact ihp (ihq h)
  | alt p q ihp ihq =>
    have tried := (ihp h).orElse (ihq h)
    have same : (fun a ps => (p.search a ps k).or (q.search a ps k)) =
        fun a ps => (Pattern.alt p q).search a ps k := by
      funext a ps
      rw [search]
      cases p.search a ps k with
      | some r => rfl
      | none => rfl
    rwa [same] at tried
  | kept name p ih =>
    rw [stance]
    by_cases refused : p.stance (if σ = refuses then refuses else unknown) = refuses
    · rw [if_pos refused]
      have inner (a : Cursor) := refused ▸ ih (kept_holds h name a)
      exact ⟨fun x y ps => (inner _).1 x y ps, fun x ps => (inner _).2 x ps⟩
    · rw [if_neg refused]
      trivial

/-! ## 4. Searching -/

/-- Whether a pattern finds the same where returns stand in front of line feeds, if it goes on as
    told: it reads both or neither, one after the other, and wherever it may stop between them what
    goes on there makes no difference. -/
def steady : Pattern → Stance → Bool
  | .nothing, _ | .lineStart, _ | .wordEdge, _ => true
  | .one cls, σ => cls '\r' == cls '\n' && (!cls '\n' || decide (σ = faithful))
  | .run cls greedy, σ =>
    cls '\r' == cls '\n' && (!cls '\n' || (greedy && decide (σ ≠ unknown)))
  | .seq p q, σ => p.steady (q.stance σ) && q.steady σ
  | .alt p q, σ => p.steady σ && q.steady σ
  | .kept _ p, σ => p.steady (if σ = refuses then refuses else unknown)

section Search

variable {α β : Type} {tail : List Char} {cls : Char → Bool}

/-- A class without line feeds reaches the same places. -/
theorem reach_withReturns (ends : tail = [] ∨ tail = ['\r']) (noReturn : cls '\r' = false)
    (noFeed : cls '\n' = false) (a : Cursor) :
    Cursor.reach cls (a.withReturns tail).before (a.withReturns tail).after =
      (Cursor.reach cls a.before a.after).map (·.withReturns tail) := by
  obtain ⟨before, after⟩ := a
  induction after generalizing before with
  | nil =>
    rcases ends with rfl | rfl
    · rfl
    · simp [Cursor.withReturns, Cursor.reach, noReturn]
  | cons c after ih =>
    by_cases feed : c = '\n'
    · subst feed
      simp [Cursor.withReturns, Cursor.reach, noReturn, noFeed]
    · have further := ih (c :: before)
      simp only [Cursor.withReturns, returnsBefore_cons before feed] at further
      simp only [Cursor.withReturns, withReturns_cons after feed, List.cons_append, Cursor.reach]
      cases inClass : cls c with
      | false => simp [withReturns_cons after feed]
      | true => simp [withReturns_cons after feed, further]

/-- A greedy run over line feeds and the returns in front of them comes to the same. -/
theorem findSome?_reach_withReturns (ends : tail = [] ∨ tail = ['\r'])
    {k : Cursor → Parts → Option α} {k' : Cursor → Parts → Option β} {f : α → β} {ps : Parts}
    (same : ∀ b, k' (b.withReturns tail) (ps.withReturns tail) = (k b ps).map f)
    (meek : Stance.meek.Holds k') (agree : cls '\r' = cls '\n') (a : Cursor) :
    (Cursor.reach cls (a.withReturns tail).before (a.withReturns tail).after).reverse.findSome?
        (k' · (ps.withReturns tail)) =
      ((Cursor.reach cls a.before a.after).reverse.findSome? (k · ps)).map f := by
  obtain ⟨before, after⟩ := a
  induction after generalizing before with
  | nil =>
    have here := same ⟨before, []⟩
    rcases ends with rfl | rfl
    · simpa [Cursor.withReturns, Cursor.reach] using here
    · cases inClass : cls '\r' with
      | false => simpa [Cursor.withReturns, Cursor.reach, inClass] using here
      | true => simpa [Cursor.withReturns, Cursor.reach, inClass, meek.2] using here
  | cons c after ih =>
    have here := same ⟨before, c :: after⟩
    have further := ih (c :: before)
    by_cases feed : c = '\n'
    · subst feed
      cases inClass : cls '\n' with
      | false => simpa [Cursor.withReturns, Cursor.reach, agree, inClass] using here
      | true =>
        simp only [Cursor.withReturns, returnsBefore_break, withReturns_break, List.cons_append,
          Cursor.reach, agree, inClass, if_true, List.reverse_cons] at further here ⊢
        rw [List.findSome?_append, findSome?_between meek, List.findSome?_append, further,
          List.findSome?_singleton, List.findSome?_singleton, here, Option.map_or]
    · simp only [Cursor.withReturns, returnsBefore_cons before feed] at further
      simp only [Cursor.withReturns, withReturns_cons after feed, List.cons_append] at here ⊢
      rw [Cursor.reach, Cursor.reach]
      cases inClass : cls c with
      | false => simpa using here
      | true =>
        simp only [if_true, List.reverse_cons]
        rw [List.findSome?_append, List.findSome?_append, further, List.findSome?_singleton,
          List.findSome?_singleton, here, Option.map_or]

/-- One character is read where it was, a return and its line feed one after the other. -/
theorem search_one_withReturns (ends : tail = [] ∨ tail = ['\r'])
    {k : Cursor → Parts → Option α} {k' : Cursor → Parts → Option β} {f : α → β} {ps : Parts}
    (same : ∀ b, k' (b.withReturns tail) (ps.withReturns tail) = (k b ps).map f)
    (agree : cls '\r' = cls '\n') (faithful : cls '\n' = true → Stance.faithful.Holds k')
    (a : Cursor) :
    (Pattern.one cls).search (a.withReturns tail) (ps.withReturns tail) k' =
      ((Pattern.one cls).search a ps k).map f := by
  obtain ⟨before, after⟩ := a
  cases after with
  | nil =>
    rcases ends with rfl | rfl
    · rfl
    · cases feed : cls '\n' with
      | false => simp [search, Cursor.withReturns, Cursor.step?, agree, feed]
      | true => simp [search, Cursor.withReturns, Cursor.step?, agree, feed, (faithful feed).2]
  | cons c after =>
    by_cases feed : c = '\n'
    · subst feed
      have next := same ⟨'\n' :: before, after⟩
      cases feed : cls '\n' with
      | false => simp [search, Cursor.withReturns, Cursor.step?, agree, feed]
      | true =>
        simpa [search, Cursor.withReturns, Cursor.step?, agree, feed, (faithful feed).1]
          using next
    · have next := same ⟨c :: before, after⟩
      simp only [Cursor.withReturns, returnsBefore_cons before feed] at next
      simp only [search, Cursor.withReturns, Cursor.step?, withReturns_cons after feed,
        List.cons_append, next]
      cases cls c with
      | false => rfl
      | true => rfl

/-- **A steady pattern finds in the text with returns what it finds in the text.** -/
theorem search_withReturns (ends : tail = [] ∨ tail = ['\r'])
    {k : Cursor → Parts → Option α} {k' : Cursor → Parts → Option β} {f : α → β} {σ : Stance}
    (p : Pattern) (steady : p.steady σ = true) (known : σ.Holds k')
    (same : ∀ b ps, k' (b.withReturns tail) (ps.withReturns tail) = (k b ps).map f) (a : Cursor)
    (ps : Parts) :
    p.search (a.withReturns tail) (ps.withReturns tail) k' = (p.search a ps k).map f := by
  induction p generalizing σ k k' a ps with
  | nothing => exact same a ps
  | lineStart =>
    simp only [search, Cursor.atLineStart_withReturns, same]
    split <;> rfl
  | wordEdge =>
    simp only [search, Cursor.atWordEdge_withReturns ends, same]
    split <;> rfl
  | one cls =>
    obtain ⟨agree, passes⟩ := Bool.and_eq_true_iff.mp steady
    have agree := eq_of_beq agree
    have faithful (feed : cls '\n' = true) : Stance.faithful.Holds k' := by
      simp only [feed, Bool.not_true, Bool.false_or, decide_eq_true_eq] at passes
      exact passes ▸ known
    exact search_one_withReturns ends (fun b => same b ps) agree faithful a
  | run cls greedy =>
    obtain ⟨agree, passes⟩ := Bool.and_eq_true_iff.mp steady
    have agree := eq_of_beq agree
    simp only [search]
    cases feed : cls '\n' with
    | false =>
      rw [reach_withReturns ends (agree.trans feed) feed, ← List.map_reverse, ← apply_ite,
        List.findSome?_map, List.map_findSome?]
      exact congrArg (List.findSome? · _) (funext fun b => same b ps)
    | true =>
      simp only [feed, Bool.not_true, Bool.false_or, Bool.and_eq_true, decide_eq_true_eq] at passes
      obtain ⟨rfl, meek⟩ := passes
      exact findSome?_reach_withReturns ends (fun b => same b ps) (known.meek meek) agree a
  | seq p q ihp ihq =>
    obtain ⟨first, second⟩ := Bool.and_eq_true_iff.mp steady
    exact ihp first (stance_holds q known) (fun b ps' => ihq second known same b ps') a ps
  | alt p q ihp ihq =>
    obtain ⟨first, second⟩ := Bool.and_eq_true_iff.mp steady
    simp only [search, ihp first known same a ps, ihq second known same a ps]
    cases p.search a ps k with
    | some r => rfl
    | none => rfl
  | kept name p ih =>
    exact ih (k := fun b ps' => k b ((name, a, b) :: ps')) steady
      (kept_holds known name (a.withReturns tail)) (fun b ps' => same b ((name, a, b) :: ps')) a ps

end Search

/-! ## 5. All matches -/

section All

variable {p : Pattern} {tail before after t : List Char} {c : Char} {m : Match}

/-- Characters that belong to a match already found are passed over. -/
theorem findAllFrom_skip (p : Pattern) (before t after : List Char) :
    p.findAllFrom t.length before (t ++ after) = p.findAllFrom 0 (t.reverse ++ before) after := by
  induction t generalizing before with
  | nil => rfl
  | cons c t ih =>
    rw [List.length_cons, List.cons_append, findAllFrom, ih, List.reverse_cons, List.append_assoc]
    rfl

/-- Behind a match the search goes on where it ended, and behind an empty one a character on. -/
theorem findAllFrom_of_matchAt? (found : p.matchAt? ⟨before, c :: after⟩ = some m)
    (passes : (⟨before, c :: after⟩ : Cursor).Passes t m.stop) :
    p.findAllFrom 0 before (c :: after) =
      m :: if t = [] then p.findAllFrom 0 (c :: before) after
        else p.findAllFrom 0 m.stop.before m.stop.after := by
  obtain ⟨start, -⟩ := reaches_of_matchAt? found
  have length : m.length = t.length := by
    rw [Match.length, start, Cursor.offset, Cursor.offset, passes.before, List.length_append,
      List.length_reverse]
    exact Nat.add_sub_cancel _ _
  rw [findAllFrom, found]
  dsimp only
  rw [length]
  cases t with
  | nil => rfl
  | cons c' t =>
    have after_ := passes.after
    have stop := passes.before
    simp only [List.cons_append, List.cons.injEq] at after_
    obtain ⟨rfl, rfl⟩ := after_
    rw [if_neg (List.cons_ne_nil _ _), stop, List.length_cons, Nat.add_sub_cancel,
      findAllFrom_skip, List.reverse_cons, List.append_assoc]
    rfl

theorem matchAt?_withReturns (ends : tail = [] ∨ tail = ['\r'])
    (steady : p.steady unknown = true) (a : Cursor) :
    p.matchAt? (a.withReturns tail) = (p.matchAt? a).map (·.withReturns tail) :=
  search_withReturns ends p steady trivial (fun _ _ => rfl) a []

/-- A pattern that refuses fits nowhere between a return and its line feed. -/
theorem matchAt?_between (refused : p.stance unknown = refuses) (x y : List Char) :
    p.matchAt? ⟨'\r' :: x, '\n' :: y⟩ = none ∧ p.matchAt? ⟨'\r' :: x, []⟩ = none := by
  have fails (a : Cursor) :
      refuses.Holds fun b ps => p.search b ps fun b ps => some (Match.mk a b ps) :=
    refused ▸ stance_holds p trivial
  exact ⟨(fails _).1 x y [], (fails _).2 x []⟩

/-- One character on in the text is one character on in the text with returns: no match begins
    between a return and its line feed. -/
theorem findAllFrom_next (refused : p.stance unknown = refuses) (tail before after : List Char)
    (c : Char) : ∃ c' rest, Text.withReturns (c :: after) ++ tail = c' :: rest ∧
      p.findAllFrom 0 (c' :: returnsBefore before) rest =
        p.findAllFrom 0 (returnsBefore (c :: before)) (Text.withReturns after ++ tail) := by
  by_cases feed : c = '\n'
  · subst feed
    refine ⟨'\r', '\n' :: (Text.withReturns after ++ tail), rfl, ?_⟩
    rw [findAllFrom, (matchAt?_between refused _ _).1]
    rfl
  · rw [withReturns_cons after feed, returnsBefore_cons before feed]
    exact ⟨_, _, rfl, rfl⟩

/-- **All matches in the text with returns** are the matches in the text, for a steady pattern that
    does not begin between a return and its line feed. -/
theorem findAllFrom_withReturns (ends : tail = [] ∨ tail = ['\r'])
    (steady : p.steady unknown = true) (refused : p.stance unknown = refuses)
    (before after : List Char) :
    p.findAllFrom 0 (returnsBefore before) (Text.withReturns after ++ tail) =
      (p.findAllFrom 0 before after).map (·.withReturns tail) := by
  induction size : after.length using Nat.strong_induction_on generalizing before after with
  | _ n ih =>
  subst size
  have here := matchAt?_withReturns ends steady ⟨before, after⟩
  cases after with
  | nil =>
    have last (n : Nat) (x : List Char) : p.findAllFrom n ('\r' :: x) [] = [] := by
      cases n with
      | zero => rw [findAllFrom, (matchAt?_between refused x []).2]; rfl
      | succ n => rfl
    simp only [Cursor.withReturns, withReturns_nil, List.nil_append] at here
    rcases ends with rfl | rfl
    · rw [withReturns_nil, List.nil_append, findAllFrom, findAllFrom, here]
      cases p.matchAt? ⟨before, []⟩ with
      | none => rfl
      | some m => rfl
    · rw [withReturns_nil, List.nil_append, findAllFrom, findAllFrom, here]
      cases p.matchAt? ⟨before, []⟩ with
      | none => exact last 0 _
      | some m => exact congrArg _ (last _ _)
  | cons c after =>
    obtain ⟨c', rest, split, next⟩ := findAllFrom_next refused tail before after c
    have onward := ih after.length (by simp) (c :: before) after rfl
    simp only [Cursor.withReturns, split] at here
    rw [split]
    cases found : p.matchAt? ⟨before, c :: after⟩ with
    | none =>
      rw [found] at here
      rw [findAllFrom, findAllFrom, found, here]
      exact next.trans onward
    | some m =>
      rw [found] at here
      obtain ⟨-, fits⟩ := reaches_of_matchAt? found
      have passes := fits.passes
      generalize (⟨before, c :: after⟩ : Cursor).textTo m.stop = t at passes
      have passes' : (⟨returnsBefore before, c' :: rest⟩ : Cursor).Passes (Text.withReturns t)
          (m.withReturns tail).stop := by
        have both : (Cursor.withReturns tail ⟨before, c :: after⟩).Passes (Text.withReturns t)
            (m.stop.withReturns tail) := passes.withReturns
        rwa [Cursor.withReturns, split] at both
      rw [findAllFrom_of_matchAt? here passes', findAllFrom_of_matchAt? found passes, List.map_cons]
      simp only [withReturns_eq_nil_iff]
      congr 1
      cases t with
      | nil => exact next.trans onward
      | cons c'' t =>
        have shorter : m.stop.after.length < (c :: after).length := by
          have length := congrArg List.length passes.after
          simp only [List.length_append, List.length_cons] at length ⊢
          omega
        rw [if_neg (List.cons_ne_nil _ _), if_neg (List.cons_ne_nil _ _)]
        exact ih _ shorter m.stop.before m.stop.after rfl

theorem findAll_withReturns (ends : tail = [] ∨ tail = ['\r']) (steady : p.steady unknown = true)
    (refused : p.stance unknown = refuses) (s : List Char) :
    p.findAll (Text.withReturns s ++ tail) = (p.findAll s).map (·.withReturns tail) :=
  findAllFrom_withReturns ends steady refused [] s

end All

end Pattern

end CodeInsight.Text
