import CodeInsight.Proofs.Text.Lines

/-!
# Texts cut at bytes

* a text can be cut in front of a byte of its UTF-8 only where a character begins, and behind its
  last one (`splitBytes?`); in the midst of a character, and beyond the end, there is no cut;
* so a cut is made exactly if something before it has that many bytes (`splitBytes?_eq_some_iff`),
  and **a piece is cut out exactly where it stands between two such places** (`slice?_eq_some_iff`);
* `findByte?` and `lastByte?` tell where the first and the last of a character is, in bytes.
-/

namespace CodeInsight.Text

/-- The text cut in front of a byte. -/
def splitBytes? : Nat → List Char → Option (List Char × List Char)
  | 0, s => some ([], s)
  | _ + 1, [] => none
  | n + 1, c :: s =>
    if c.utf8Size ≤ n + 1 then
      (splitBytes? (n + 1 - c.utf8Size) s).map fun cut => (c :: cut.1, cut.2)
    else none

/-- The text before a byte. -/
def upTo? (s : List Char) (n : Nat) : Option (List Char) := (splitBytes? n s).map Prod.fst

/-- The text from a byte on. -/
def from? (s : List Char) (n : Nat) : Option (List Char) := (splitBytes? n s).map Prod.snd

/-- The text between two bytes. -/
def slice? (s : List Char) (i j : Nat) : Option (List Char) := (upTo? s j).bind (from? · i)

/-- The byte at which the first `d` of a text is. -/
def findByte? (d : Char) (s : List Char) : Option Nat :=
  if d ∈ s then some (utf8Length (s.takeWhile (· != d))) else none

/-- The byte at which the last `d` of a text is. -/
def lastByte? (d : Char) (s : List Char) : Option Nat :=
  match s.reverse.dropWhile (· != d) with
  | [] => none
  | _ :: before => some (utf8Length before)

section Cuts

variable {s t a b : List Char} {d : Char} {i j n : Nat}

@[simp] theorem utf8Length_reverse (s : List Char) : utf8Length s.reverse = utf8Length s := by
  induction s with
  | nil => rfl
  | cons c s ih =>
    rw [List.reverse_cons, utf8Length_append, ih, utf8Length_cons, utf8Length_cons, utf8Length_nil]
    omega

/-- **A text is cut** where its beginning has that many bytes. -/
theorem splitBytes?_eq_some_iff :
    splitBytes? n s = some (a, b) ↔ a ++ b = s ∧ utf8Length a = n := by
  fun_induction splitBytes? n s generalizing a b with
  | case1 s =>
    constructor
    · intro cut
      cases cut
      exact ⟨rfl, rfl⟩
    · rintro ⟨rfl, none⟩
      cases a with
      | nil => rfl
      | cons c a =>
        have := c.utf8Size_pos
        rw [utf8Length_cons] at none
        omega
  | case2 n =>
    constructor
    · intro cut
      cases cut
    · rintro ⟨empty, length⟩
      obtain ⟨rfl, -⟩ := List.append_eq_nil_iff.mp empty
      cases length
  | case3 n c s fits ih =>
    rw [Option.map_eq_some_iff]
    constructor
    · rintro ⟨⟨a', b'⟩, cut, same⟩
      obtain ⟨rfl, rfl⟩ := Prod.mk.inj same
      obtain ⟨rfl, length⟩ := ih.mp cut
      refine ⟨rfl, ?_⟩
      rw [utf8Length_cons]
      dsimp only
      omega
    · rintro ⟨whole, length⟩
      rcases List.append_eq_cons_iff.mp whole with ⟨rfl, -⟩ | ⟨a', rfl, rest⟩
      · cases length
      · rw [utf8Length_cons] at length
        exact ⟨(a', b), ih.mpr ⟨rest.symm, by omega⟩, rfl⟩
  | case4 n c s large =>
    constructor
    · intro cut
      cases cut
    · rintro ⟨whole, length⟩
      rcases List.append_eq_cons_iff.mp whole with ⟨rfl, -⟩ | ⟨a', rfl, -⟩
      · cases length
      · rw [utf8Length_cons] at length
        omega

theorem upTo?_append (a b : List Char) : upTo? (a ++ b) (utf8Length a) = some a := by
  rw [upTo?, splitBytes?_eq_some_iff.mpr ⟨rfl, rfl⟩]
  rfl

theorem from?_append (a b : List Char) : from? (a ++ b) (utf8Length a) = some b := by
  rw [from?, splitBytes?_eq_some_iff.mpr ⟨rfl, rfl⟩]
  rfl

/-- **A piece is cut out** where it stands between the two bytes. -/
theorem slice?_eq_some_iff :
    slice? s i j = some t ↔
      ∃ a b, a ++ t ++ b = s ∧ utf8Length a = i ∧ utf8Length (a ++ t) = j := by
  simp only [slice?, upTo?, from?, Option.bind_eq_some_iff, Option.map_eq_some_iff, Prod.exists,
    exists_eq_right, exists_and_right, splitBytes?_eq_some_iff]
  constructor
  · rintro ⟨_, ⟨⟨b, rfl⟩, rfl⟩, a, rfl, rfl⟩
    exact ⟨a, ⟨b, rfl⟩, rfl, rfl⟩
  · rintro ⟨a, ⟨b, rfl⟩, rfl, rfl⟩
    exact ⟨a ++ t, ⟨⟨b, rfl⟩, rfl⟩, a, rfl, rfl⟩

theorem slice?_append (a t b : List Char) :
    slice? (a ++ (t ++ b)) (utf8Length a) (utf8Length a + utf8Length t) = some t :=
  slice?_eq_some_iff.mpr ⟨a, b, List.append_assoc a t b, rfl, utf8Length_append a t⟩

theorem findByte?_of_not_mem (none : d ∉ s) : findByte? d s = Option.none := if_neg none

theorem findByte?_append_cons (none : d ∉ a) (b : List Char) :
    findByte? d (a ++ d :: b) = some (utf8Length a) := by
  rw [findByte?, if_pos (by simp), (span_of_first none b).1]

end Cuts

end CodeInsight.Text
