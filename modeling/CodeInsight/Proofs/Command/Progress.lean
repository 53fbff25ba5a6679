import CodeInsight.Command.Printing
import CodeInsight.Proofs.Engine.Files

/-!
# The count of files

* `Progress.Counts` is what the count says of the events it has seen, whatever they are: a file is
  pending until an event tells of it to the end, and then counts as analysed or failed, once;
* it holds at the beginning (`counts_start`), and an event keeps it (`Counts.record`).
-/

namespace CodeInsight

namespace Progress

variable {files : List String} {seen : List Event} {p : Progress}

/-- **What the count says** of the events seen so far, the latest first. -/
structure Counts (files : List String) (seen : List Event) (p : Progress) : Prop where
  distinct : p.pending.Nodup
  pending : ∀ path, path ∈ p.pending ↔ path ∈ files ∧ path ∉ endedFiles seen
  total : p.analyzed + p.failed + p.pending.length = files.length

/-- At the beginning every file is pending. -/
theorem counts_start (distinct : files.Nodup) : Counts files [] (start files) where
  distinct := distinct
  pending path := by simp [start, endedFiles]
  total := by simp [start]

/-- An event that ends the analysis of a pending file moves the file to those that are counted. -/
theorem record_of_mem {event : Event} (last : event.isTerminal = true)
    (there : event.path ∈ p.pending) :
    (p.record event).pending = p.pending.filter (· != event.path) ∧
      (p.record event).analyzed + (p.record event).failed = p.analyzed + p.failed + 1 := by
  have counted : (event.isTerminal && p.pending.contains event.path) = true := by
    simp [last, there]
  rw [record, if_pos counted]
  cases event with
  | completed => exact ⟨rfl, by dsimp only; omega⟩
  | failed => exact ⟨rfl, by dsimp only; omega⟩
  | detected => cases last

/-- Any other event changes nothing. -/
theorem record_of_not {event : Event} (h : ¬ (event.isTerminal = true ∧ event.path ∈ p.pending)) :
    p.record event = p := by
  have other : ¬ (event.isTerminal && p.pending.contains event.path) = true := by
    simpa using h
  rw [record, if_neg other]

theorem endedFiles_cons (event : Event) :
    endedFiles (event :: seen) =
      if event.isTerminal then event.path :: endedFiles seen else endedFiles seen := by
  unfold endedFiles
  cases h : event.isTerminal <;> simp [h]

/-- **An event keeps the count.** -/
theorem Counts.record (h : Counts files seen p) (event : Event) :
    Counts files (event :: seen) (p.record event) := by
  by_cases ends : event.isTerminal = true ∧ event.path ∈ p.pending
  · obtain ⟨last, there⟩ := ends
    obtain ⟨pending, total⟩ := record_of_mem last there
    have fewer : (p.pending.filter (· != event.path)).length + 1 = p.pending.length := by
      have erased := h.distinct.erase_eq_filter event.path
      rw [← erased, List.length_erase_of_mem there]
      have := List.length_pos_of_mem there
      omega
    refine ⟨?_, fun path => ?_, ?_⟩
    · rw [pending]
      exact h.distinct.filter _
    · rw [pending, List.mem_filter, h.pending, endedFiles_cons, if_pos last]
      simp only [List.mem_cons, bne_iff_ne]
      constructor
      · rintro ⟨⟨known, unseen⟩, other⟩
        exact ⟨known, fun h => h.elim other unseen⟩
      · rintro ⟨known, unseen⟩
        exact ⟨⟨known, fun h => unseen (.inr h)⟩, fun h => unseen (.inl h)⟩
    · have whole := h.total
      rw [pending, total]
      omega
  · rw [record_of_not ends]
    refine ⟨h.distinct, fun path => ?_, h.total⟩
    rw [h.pending, endedFiles_cons]
    split
    · rename_i last
      rw [List.mem_cons]
      constructor
      · rintro ⟨known, unseen⟩
        refine ⟨known, fun seen => seen.elim ?_ unseen⟩
        rintro rfl
        exact ends ⟨last, (h.pending _).mpr ⟨known, unseen⟩⟩
      · rintro ⟨known, unseen⟩
        exact ⟨known, fun h => unseen (.inr h)⟩
    · exact Iff.rfl

end Progress

end CodeInsight
