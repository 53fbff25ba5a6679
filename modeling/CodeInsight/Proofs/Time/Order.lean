import CodeInsight.Time.Instant

/-!
# The order of instants

* `notAfter` is reflexive, transitive and total (`notAfter_refl`, `notAfter_trans`,
  `notAfter_total`);
* the instant one microsecond on is later (`notAfter_nextMicro?`), and there is one if a second is
  left (`exists_nextMicro?`).
-/

namespace CodeInsight.Instant

theorem notAfter_iff {a b : Instant} :
    a.notAfter b = true ↔ a.second < b.second ∨ a.second = b.second ∧ a.nano ≤ b.nano := by
  simp [notAfter]

theorem notAfter_refl (a : Instant) : a.notAfter a = true :=
  notAfter_iff.mpr (.inr ⟨rfl, Nat.le_refl _⟩)

theorem notAfter_trans {a b c : Instant} (h : a.notAfter b = true) (h' : b.notAfter c = true) :
    a.notAfter c = true := by
  rw [notAfter_iff] at *
  omega

theorem notAfter_total {a b : Instant} (h : a.notAfter b = false) : b.notAfter a = true := by
  have h : ¬ a.notAfter b = true := by simp [h]
  rw [notAfter_iff] at *
  omega

theorem lt_microLater (t : Instant) :
    t.second < t.microLater.1 ∨ t.second = t.microLater.1 ∧ t.nano < t.microLater.2 := by
  dsimp only [microLater]
  split
  · split
    · right; dsimp only; omega
    · left; dsimp only; omega
  · split
    · right; dsimp only; omega
    · left; dsimp only; omega

/-- One microsecond on it is later. -/
theorem notAfter_nextMicro? {t t' : Instant} (h : t.nextMicro? = some t') :
    t'.notAfter t = false := by
  have later := t.lt_microLater
  unfold nextMicro? at? at h
  split at h
  · cases h
    refine Bool.eq_false_iff.mpr fun h => ?_
    rw [notAfter_iff] at h
    dsimp only at h
    omega
  · cases h

/-- If a second is left there is an instant one microsecond on, not more than a second later. -/
theorem exists_nextMicro? {t : Instant} (h : t.second + 1 ≤ last) :
    ∃ t', t.nextMicro? = some t' ∧ t'.second ≤ t.second + 1 := by
  have on : t.second ≤ t.microLater.1 ∧ t.microLater.1 ≤ t.second + 1 ∧
      t.microLater.2 < 2 * nanosPerSecond := by
    have := t.nano_lt
    dsimp only [microLater]
    split <;> split <;> dsimp only [nanosPerSecond] at * <;> omega
  have held : (first ≤ t.microLater.1 ∧ t.microLater.1 ≤ last) ∧
      t.microLater.2 < 2 * nanosPerSecond :=
    ⟨⟨Int.le_trans t.second_bounds.1 on.1, Int.le_trans on.2.1 h⟩, on.2.2⟩
  exact ⟨⟨_, _, held.1, held.2⟩, dif_pos held, on.2.1⟩

end CodeInsight.Instant
