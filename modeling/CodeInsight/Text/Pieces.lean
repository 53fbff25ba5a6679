/-!
# Cutting a text at a character

* `pieces d` cuts a text at every `d`, which belongs to no piece: there is one piece more than
  there are cuts, so an empty text is one empty piece;
* `joinWith d` puts the pieces together again (`joinWith_pieces`).
-/

namespace CodeInsight.Text

/-- The text cut at every `d`. -/
def pieces (d : Char) : List Char → List (List Char)
  | [] => [[]]
  | c :: rest =>
    if c = d then [] :: pieces d rest
    else match pieces d rest with
      | [] => [[c]]
      | piece :: more => (c :: piece) :: more

/-- The pieces with a `d` between each two. -/
def joinWith (d : Char) (ps : List (List Char)) : List Char := List.intercalate [d] ps

theorem pieces_ne_nil (d : Char) : ∀ s : List Char, pieces d s ≠ []
  | [] => by simp [pieces]
  | c :: rest => by
    unfold pieces
    split
    · simp
    · split <;> simp

@[simp] theorem joinWith_singleton (d : Char) (p : List Char) : joinWith d [p] = p := by
  simp [joinWith, List.intercalate]

theorem joinWith_cons_of_ne_nil (d : Char) (p : List Char) {ps : List (List Char)} (h : ps ≠ []) :
    joinWith d (p :: ps) = p ++ d :: joinWith d ps := by
  cases ps with
  | nil => exact absurd rfl h
  | cons q qs => simp [joinWith, List.intercalate, List.intersperse]

/-- **Nothing is lost by cutting**: the pieces, joined again, are the text. -/
theorem joinWith_pieces (d : Char) : ∀ s : List Char, joinWith d (pieces d s) = s
  | [] => by simp [pieces]
  | c :: rest => by
    have ih := joinWith_pieces d rest
    unfold pieces
    split
    · rename_i h
      rw [joinWith_cons_of_ne_nil d [] (pieces_ne_nil d rest), ih, h]
      rfl
    · split
      · rename_i h
        exact absurd h (pieces_ne_nil d rest)
      · rename_i piece more h
        rw [h] at ih
        cases more with
        | nil => simpa using ih
        | cons p ps =>
          rw [joinWith_cons_of_ne_nil _ _ (by simp)] at ih ⊢
          simp [ih]

/-- No piece holds the character the text was cut at. -/
theorem not_mem_of_mem_pieces (d : Char) : ∀ (s p : List Char), p ∈ pieces d s → d ∉ p
  | [], p, hp => by simp [pieces] at hp; simp [hp]
  | c :: rest, p, hp => by
    have ih := not_mem_of_mem_pieces d rest
    unfold pieces at hp
    split at hp
    · rcases List.mem_cons.1 hp with rfl | hp
      · simp
      · exact ih p hp
    · rename_i hc
      split at hp
      · rename_i h
        exact absurd h (pieces_ne_nil d rest)
      · rename_i piece more h
        rcases List.mem_cons.1 hp with rfl | hp
        · have := ih piece (by simp [h])
          simp only [List.mem_cons, not_or]
          exact ⟨fun e => hc e.symm, this⟩
        · exact ih p (by simp [h, hp])

end CodeInsight.Text
