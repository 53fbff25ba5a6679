import CodeInsight.Store.InsightStore

/-!
# What saving leaves alone

* a record and a draft never have one name, and records of different names are different
  (`recordName_ne_draftName`, `recordName_inj`);
* a save that fails changes no record, and one that succeeds changes only the record of its own
  name (`contentAt_save`);
* so what is loaded for a path changes only with a successful save for a path that shares its
  record (`InsightStore.load_save`).
-/

namespace CodeInsight

namespace RecordDirectory

variable {naming : String → String} {p q name : String} {d d' : RecordDirectory}

/-! ## 1. Names -/

theorem recordName_ne_draftName (p q : String) : recordName naming p ≠ draftName naming q := by
  intro h
  have h := congrArg (fun s => s.toList.getLast?) h
  simp [recordName, draftName] at h

theorem recordName_inj (h : recordName naming p = recordName naming q) : naming p = naming q := by
  have h := congrArg String.toList h
  simp only [recordName, String.toList_append] at h
  exact String.toList_inj.mp (List.append_cancel_right h)

/-! ## 2. The steps of a save -/

theorem contentAt_makeRoom (h : d.makeRoom = .ok d') : d'.contentAt name = d.contentAt name := by
  cases d with
  | missing => cases h; rfl
  | blocked => cases h
  | present entries => cases h; rfl

theorem contentAt_withFile {written : String} {content : List UInt8} (hne : name ≠ written)
    (h : d.withFile written content = .ok d') : d'.contentAt name = d.contentAt name := by
  cases d with
  | missing => cases h
  | blocked => cases h
  | present entries =>
    simp only [withFile] at h
    split at h
    · cases h
    · cases h
      simp [contentAt, Table.get?_set_ne _ _ hne]

theorem contentAt_rename {old new : String} (hold : name ≠ old) (hnew : name ≠ new)
    (h : d.rename old new = .ok d') : d'.contentAt name = d.contentAt name := by
  cases d with
  | missing => cases h
  | blocked => cases h
  | present entries =>
    simp only [rename] at h
    split at h
    · cases h
    · cases h
    · cases h
    · cases h
      simp [contentAt, Table.get?_set_ne _ _ hnew, Table.get?_erase_ne _ hold]

/-! ## 3. Saves -/

/-- **A save changes the record of its own name**, and that only if it succeeds. -/
theorem contentAt_save {insights : List Insight} {time : Instant}
    (h : naming p ≠ naming q ∨ (d.save naming q insights time).1 ≠ .ok ()) :
    (d.save naming q insights time).2.contentAt (recordName naming p) =
      d.contentAt (recordName naming p) := by
  have noDraft : recordName naming p ≠ draftName naming q := recordName_ne_draftName p q
  unfold save at h ⊢
  split
  · rfl
  · rename_i d₁ made
    have room : d₁.contentAt (recordName naming p) = d.contentAt (recordName naming p) :=
      contentAt_makeRoom made
    split
    · exact room
    · rename_i d₂ drafted
      have draft : d₂.contentAt (recordName naming p) = d₁.contentAt (recordName naming p) :=
        contentAt_withFile noDraft drafted
      split
      · exact draft.trans room
      · rename_i d₃ published
        have other : recordName naming p ≠ recordName naming q := by
          rcases h with h | h
          · exact fun same => h (recordName_inj same)
          · rw [made] at h
            dsimp only at h
            rw [drafted] at h
            dsimp only at h
            rw [published] at h
            exact absurd rfl h
        exact (contentAt_rename noDraft other published).trans (draft.trans room)

theorem load_eq_of_contentAt {directoryPath : String}
    (h : d'.contentAt (recordName naming p) = d.contentAt (recordName naming p)) :
    d'.load naming directoryPath p = d.load naming directoryPath p := by
  rw [load, load, h]

end RecordDirectory

namespace InsightStore

variable {s : InsightStore} {p q : String}

/-- What is saved for one path is kept where it is kept for the other. -/
def Shares : InsightStore → String → String → Prop
  | memory _, p, q => p = q
  | records naming _ _, p, q => naming p = naming q

theorem shares_self (s : InsightStore) (p : String) : s.Shares p p := by
  cases s <;> rfl

/-- **What is loaded for a path stays** when a save fails, and when one is for a path that does not
    share its record. -/
theorem load_save (insights : List Insight) (time : Instant)
    (h : ¬ s.Shares p q ∨ (s.save q insights time).1 ≠ .ok ()) :
    (s.save q insights time).2.load p = s.load p := by
  cases s with
  | memory t =>
    rcases h with other | failed
    · simp [save, load, Table.get?_set_ne _ _ other]
    · exact absurd rfl failed
  | records naming directoryPath d =>
    exact RecordDirectory.load_eq_of_contentAt (RecordDirectory.contentAt_save h)

/-- In memory what was saved for a path is what is loaded for it. -/
theorem load_save_memory (t : Table (List Insight)) (insights : List Insight) (time : Instant) :
    ((memory t).save p insights time).2.load p = (.ok (some insights), []) := by
  simp [save, load]

end InsightStore

end CodeInsight
