import CodeInsight.Proofs.Source.Extents

/-!
# What is counted on the way to a declaration's end

* a declaration whose body stands between braces can be read character by character with three
  things kept (`Counters`): the parentheses and brackets open before any brace, counted in 32 bits,
  the braces open, and whether one was opened; a closing brace with none open would be no reading at
  all (`Counters.read?`);
* `Counted k r` says what they are after `r` was read without its end: counts of characters of
  `r`, and at least one brace open once one was. **One more character keeps this, or ends the
  declaration** (`Counted.read?`), and only one that ends it does;
* so reading never breaks off, and what it reads is the extent: as long as the counts fit, **the
  shortest beginning that ends a declaration** (`bracedExtent_read`);
* behind 2³¹ open parentheses the count is below zero, and a semicolon ends what none should end
  (`bracedExtent_wraps`).
-/

namespace CodeInsight.Source

/-- What is counted while a declaration is read. -/
structure Counters where
  groups : Int32
  depth : Nat
  opened : Bool
  deriving DecidableEq, Repr

namespace Counters

/-- Nothing is read yet. -/
def zero : Counters := ⟨0, 0, false⟩

/-- What a character does to a declaration: it ends it, or leaves other counts. -/
inductive Reading where
  | ends
  | goesOn (k : Counters)

/-- A character is read: none if it closes a brace while none is open. -/
def read? (k : Counters) (c : Char) : Option Reading :=
  if (c = '(' ∨ c = '[') ∧ k.opened = false then some (.goesOn { k with groups := k.groups + 1 })
  else if (c = ')' ∨ c = ']') ∧ k.opened = false then
    some (.goesOn { k with groups := k.groups - 1 })
  else if c = ';' ∧ k.opened = false ∧ k.groups ≤ 0 then some .ends
  else if c = '{' then some (.goesOn { k with depth := k.depth + 1, opened := true })
  else if c = '}' ∧ k.opened = true then
    if k.depth = 0 then none
    else if k.depth - 1 = 0 then some .ends
    else some (.goesOn { k with depth := k.depth - 1 })
  else some (.goesOn k)

/-- The text up to the declaration's end, none if a character on the way cannot be read. -/
def extent? (k : Counters) : List Char → Option (List Char)
  | [] => some []
  | c :: rest =>
    match k.read? c with
    | none => none
    | some .ends => some [c]
    | some (.goesOn k') => (k'.extent? rest).map (c :: ·)

end Counters

open CodeInsight.Text Counters

/-- What is counted when `r` was read: before any brace the parentheses and brackets open, and from
    the first brace on the braces open, of which there is always one. -/
inductive Counted : Counters → List Char → Prop where
  | head {r : List Char} (none : '{' ∉ r) : Counted ⟨openGroups r, 0, false⟩ r
  | body {front body : List Char} {depth : Nat} (none : '{' ∉ front) (some_open : 0 < depth)
      (sum : depth + body.count '}' = body.count '{' + 1) :
      Counted ⟨openGroups front, depth, true⟩ (front ++ '{' :: body)

section Reading

variable {k : Counters} {c : Char} {r front body : List Char}

/-! ## 1. What the last character of a text ends -/

/-- A text is cut at the first of a character in one way only. -/
theorem append_cons_inj_of_first {x y : List Char} (none : c ∉ front) (none' : c ∉ r)
    (same : front ++ c :: x = r ++ c :: y) : front = r ∧ x = y := by
  obtain ⟨taken, left⟩ := span_of_first none x
  rw [same, (span_of_first none' y).1] at taken
  rw [same, (span_of_first none' y).2] at left
  exact ⟨taken.symm, (List.cons.inj left).2.symm⟩

theorem not_endsCounted_nil : ¬ EndsCounted [] := endsBehind_nil

/-- Before any brace only a semicolon ends a declaration, where no group is counted. -/
theorem endsCounted_concat_head (none : '{' ∉ r) :
    EndsCounted (r ++ [c]) ↔ c = ';' ∧ openGroups r ≤ 0 := by
  unfold EndsCounted EndsBehind
  simp only [Int32.zero_add]
  constructor
  · rintro (⟨r', same, -, low⟩ | ⟨front, body, same, -⟩)
    · obtain ⟨rfl, last⟩ := List.append_inj' same rfl
      exact ⟨List.singleton_inj.mp last, low⟩
    · rw [← List.cons_append, ← List.append_assoc] at same
      obtain ⟨rfl, -⟩ := List.append_inj' same rfl
      exact absurd (List.mem_append_right front List.mem_cons_self) none
  · rintro ⟨rfl, low⟩
    exact .inl ⟨r, rfl, none, low⟩

/-- Behind the first brace only a closing brace ends one, when all others are closed. -/
theorem endsCounted_concat_body (none : '{' ∉ front) :
    EndsCounted (front ++ '{' :: body ++ [c]) ↔ c = '}' ∧ body.count '{' = body.count '}' := by
  constructor
  · rintro (⟨r, same, free, -⟩ | ⟨front', body', same, none', sum⟩)
    · obtain ⟨rfl, -⟩ := List.append_inj' same rfl
      exact absurd (List.mem_append_right front List.mem_cons_self) free
    · rw [List.append_assoc, List.cons_append] at same
      obtain ⟨-, inside⟩ := append_cons_inj_of_first none none' same
      obtain ⟨rfl, last⟩ := List.append_inj' inside rfl
      exact ⟨List.singleton_inj.mp last, sum⟩
  · rintro ⟨rfl, sum⟩
    exact .inr ⟨front, body, by simp, none, sum⟩

/-! ## 2. One character more -/

/-- **A character is always read**: it ends the declaration, or the counts are those of the text
    with it. -/
theorem Counted.read? (h : Counted k r) (c : Char) :
    k.read? c = some .ends ∧ EndsCounted (r ++ [c]) ∨
      ∃ k', k.read? c = some (.goesOn k') ∧ Counted k' (r ++ [c]) ∧
        ¬ EndsCounted (r ++ [c]) := by
  cases h with
  | @head r none =>
    rw [endsCounted_concat_head none]
    -- only an opening brace leaves the head
    have still (plain : c ≠ '{') :
        Counted ⟨openGroups r + openGroups [c], 0, false⟩ (r ++ [c]) := by
      rw [← openGroups_append]
      exact .head (by simp [none, plain.symm])
    by_cases opens : c = '(' ∨ c = '['
    · have plain : c ≠ '{' ∧ c ≠ ';' := by rcases opens with rfl | rfl <;> decide
      refine .inr ⟨_, if_pos ⟨opens, rfl⟩, ?_, fun ends => plain.2 ends.1⟩
      rw [← openGroups_opens opens]
      exact still plain.1
    by_cases closes : c = ')' ∨ c = ']'
    · have plain : c ≠ '{' ∧ c ≠ ';' := by rcases closes with rfl | rfl <;> decide
      refine .inr ⟨_, (if_neg (by simp [opens])).trans (if_pos ⟨closes, rfl⟩), ?_,
        fun ends => plain.2 ends.1⟩
      rw [Int32.sub_eq_add_neg, ← openGroups_closes closes]
      exact still plain.1
    by_cases stops : c = ';' ∧ openGroups r ≤ 0
    · refine .inl ⟨?_, stops⟩
      simp [Counters.read?, stops.1, stops.2]
    by_cases brace : c = '{'
    · subst brace
      exact .inr ⟨⟨openGroups r, 1, true⟩, by simp [Counters.read?], .body none Nat.one_pos rfl,
        stops⟩
    · refine .inr ⟨⟨openGroups r, 0, false⟩, ?_, ?_, stops⟩
      · rw [Counters.read?, if_neg fun h => opens h.1, if_neg fun h => closes h.1,
          if_neg fun h => stops ⟨h.1, h.2.2⟩, if_neg brace, if_neg fun h => Bool.false_ne_true h.2]
      · have same := still brace
        rwa [openGroups_plain opens closes, Int32.add_zero] at same
  | @body front body depth none some_open sum =>
    rw [endsCounted_concat_body none]
    have longer {n : Nat} (some_open : 0 < n)
        (sum : n + (body ++ [c]).count '}' = (body ++ [c]).count '{' + 1) :
        Counted ⟨openGroups front, n, true⟩ (front ++ '{' :: body ++ [c]) := by
      rw [List.append_assoc, List.cons_append]
      exact .body none some_open sum
    by_cases brace : c = '{'
    · subst brace
      refine .inr ⟨⟨openGroups front, depth + 1, true⟩, by simp [Counters.read?],
        longer (Nat.succ_pos _) ?_, by simp⟩
      simp
      omega
    by_cases closes : c = '}'
    · subst closes
      by_cases last : depth = 1
      · refine .inl ⟨by simp [Counters.read?, last], rfl, by omega⟩
      · have more : depth - 1 ≠ 0 := by omega
        refine .inr ⟨⟨openGroups front, depth - 1, true⟩, ?_,
          longer (Nat.pos_of_ne_zero more) ?_, fun ends => ?_⟩
        · simp [Counters.read?, some_open.ne', more]
        · simp
          omega
        · omega
    · refine .inr ⟨⟨openGroups front, depth, true⟩, ?_, longer some_open ?_,
        fun ends => closes ends.1⟩
      · simp [Counters.read?, brace, closes]
      · simp [brace, closes, sum]

/-! ## 3. All characters -/

/-- **Reading never breaks off**, and stops behind the first character that ends the declaration. -/
theorem Counted.exists_extent? (h : Counted k r) (before : ¬ EndsCounted r) (s : List Char) :
    ∃ q, k.extent? s = some q ∧ IsShortest (fun t => EndsCounted (r ++ t)) s q := by
  induction s generalizing k r with
  | nil => exact ⟨[], rfl, .nil⟩
  | cons c s ih =>
    have nothing : ¬ EndsCounted (r ++ []) := by rwa [List.append_nil]
    rcases h.read? c with ⟨read, ends⟩ | ⟨k', read, counted, goes_on⟩
    · exact ⟨[c], by rw [extent?, read], .one nothing ends⟩
    · obtain ⟨q, found, shortest⟩ := ih counted goes_on
      refine ⟨c :: q, by simp [extent?, read, found], .cons nothing (fun t => ?_) shortest⟩
      rw [List.append_assoc, List.singleton_append]

/-- **The extent of a declaration** whose body stands between braces: what is read of the text from
    the declaration's place on is the extent, and on the way no brace is closed that is not open. As
    long as the counts fit, it is the shortest beginning of the text that ends with a semicolon
    outside the groups opened before it and before any brace, or with the brace that closes the
    first one; and all of the text if no beginning does. -/
theorem bracedExtent_read (s : List Char) :
    Counters.zero.extent? s = some (bracedExtent s) ∧ bracedExtent s <+: s ∧
      (CountsFit s →
        EndsDeclaration (bracedExtent s) ∧
          (∀ q, q <+: s → EndsDeclaration q → bracedExtent s <+: q) ∨
        bracedExtent s = s ∧ ∀ q, q <+: s → ¬ EndsDeclaration q) := by
  have shortest := bracedExtent_isShortest_counted s
  have start : Counted Counters.zero [] := .head List.not_mem_nil
  obtain ⟨q, found, least⟩ := start.exists_extent? not_endsCounted_nil s
  refine ⟨?_, shortest.beginning, fun fits => (bracedExtent_isShortest fits).ends_first_or_never⟩
  rw [found, shortest.unique least]

/-- A function with an array among its parameters and no body: its first semicolon is in brackets,
    the second one ends it. -/
theorem bracedExtent_read_array :
    let s := "fn f(a: [u8; 2]); fn".toList
    CountsFit s ∧ bracedExtent s = "fn f(a: [u8; 2]);".toList ∧
      ∀ q, q <+: s → EndsDeclaration q → "fn f(a: [u8; 2]);".toList <+: q := by
  intro s
  have fits : CountsFit s := countsFit_of_length_lt (by decide)
  have extent : bracedExtent s = "fn f(a: [u8; 2]);".toList := by decide
  rcases (bracedExtent_read s).2.2 fits with ⟨-, least⟩ | ⟨all, -⟩
  · rw [extent] at least
    exact ⟨fits, extent, least⟩
  · rw [extent] at all
    exact absurd all (by decide)

/-- A semicolon in brackets ends nothing, and what is closed before it is opened is no harm. -/
example :
    bracedExtent "]\x7d fn f(a: [u8; 2]); fn".toList = "]\x7d fn f(a: [u8; 2]);".toList := by
  decide

/-! ## 4. More groups than can be counted -/

theorem headExtent_replicate (groups : Int32) (n : Nat) (t : List Char) :
    headExtent groups (List.replicate n '(' ++ t) =
      List.replicate n '(' ++ headExtent (groups + Int32.ofNat n) t := by
  induction n generalizing groups with
  | zero => simp
  | succ n ih =>
    have next : groups + 1 + Int32.ofNat n = groups + Int32.ofNat (n + 1) := by
      rw [Int32.ofNat_add, Int32.add_assoc, Int32.add_comm (Int32.ofNat n)]
      rfl
    rw [List.replicate_succ, List.cons_append, headExtent, if_pos (.inl rfl), ih, next,
      List.cons_append]

/-- A semicolon behind so many open parentheses that their count is not above zero ends the
    extent. -/
theorem bracedExtent_replicate {n : Nat} (low : Int32.ofNat n ≤ 0) (t : List Char) :
    bracedExtent (List.replicate n '(' ++ ';' :: t) = List.replicate n '(' ++ [';'] := by
  rw [bracedExtent, headExtent_replicate, Int32.zero_add, headExtent]
  simp [low]

theorem not_endsDeclaration_replicate {n : Nat} (some_open : 0 < n) :
    ¬ EndsDeclaration (List.replicate n '(' ++ [';']) := by
  rintro (⟨r, same, -, balanced⟩ | ⟨r, body, same, -⟩)
  · obtain ⟨rfl, -⟩ := List.append_inj' same rfl
    simp [openings, closings, List.count_replicate] at balanced
    omega
  · rw [← List.cons_append, ← List.append_assoc] at same
    cases (List.append_inj' same rfl).2

/-- **Behind 2³¹ open parentheses a semicolon ends the extent**, though it ends no declaration and
    more of the text follows: the count has wrapped around. -/
theorem bracedExtent_wraps :
    bracedExtent (List.replicate (2 ^ 31) '(' ++ [';', 'x']) =
        List.replicate (2 ^ 31) '(' ++ [';'] ∧
      ¬ EndsDeclaration (List.replicate (2 ^ 31) '(' ++ [';']) ∧
      List.replicate (2 ^ 31) '(' ++ [';'] ≠ List.replicate (2 ^ 31) '(' ++ [';', 'x'] := by
  refine ⟨bracedExtent_replicate (by decide) ['x'], not_endsDeclaration_replicate (by decide),
    fun all => ?_⟩
  cases List.append_cancel_left all

end Reading

end CodeInsight.Source
