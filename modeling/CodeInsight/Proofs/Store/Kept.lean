import CodeInsight.Proofs.Files.Encoding
import CodeInsight.Proofs.Insight.Encoding
import CodeInsight.Proofs.Store.Frame

/-!
# What was saved is loaded

* **a record is read from its text** (`Record.ofText?_text`), its time as the one that the calendar
  has for it;
* a save that succeeds leaves the whole text of its record under the record's name
  (`RecordDirectory.contentAt_of_saved`), so **what was saved for a path is loaded for it**
  (`InsightStore.load_of_saved`).
-/

namespace CodeInsight

open Json (Written)

/-- **A record is read from its text**, its time as the one that the calendar has for it. -/
theorem Record.ofText?_text {r : Record} (h : ∀ i ∈ r.insights, i.Fits) :
    ofText? r.text = some { r with savedAt := r.savedAt.civil } := by
  have fields := Json.record?_record fieldNames
    [("filePath", Json.ofText r.path), ("savedAt", r.savedAt.toJson),
      ("insights", Insight.listToJson r.insights)] rfl (by decide)
  have written : Written r.toJson := by
    refine Json.written_record fun m hm => ?_
    simp only [List.mem_cons, List.not_mem_nil, or_false] at hm
    rcases hm with rfl | rfl | rfl
    · exact Json.written_ofText _
    · exact r.savedAt.written_toJson
    · exact Insight.written_listToJson _
  have decoded : ofJson? r.toJson = some { r with savedAt := r.savedAt.civil } := by
    unfold ofJson? toJson
    rw [fields]
    simp [Json.field?, List.lookup_cons, Instant.ofJson?_toJson, Insight.listOfJson?_of_fits h]
  unfold ofText? text Json.ofString? Json.toPrettyText
  rw [String.toList_ofList, Json.parse?_pretty written, Option.bind_some, decoded]

namespace RecordDirectory

variable {naming : String → String} {path : String} {insights : List Insight} {time : Instant}
variable {d d' : RecordDirectory}

theorem contentAt_of_withFile {name : String} {content : List UInt8}
    (h : d.withFile name content = .ok d') : d'.contentAt name = .ok (some content) := by
  cases d with
  | missing => cases h
  | blocked => cases h
  | present entries =>
    simp only [withFile] at h
    split at h
    · cases h
    · cases h
      simp [contentAt]

/-- A file that was given another name is there under that name. -/
theorem contentAt_of_rename {old new : String} {content : List UInt8}
    (h : d.rename old new = .ok d') (there : d.contentAt old = .ok (some content)) :
    d'.contentAt new = .ok (some content) := by
  cases d with
  | missing => cases h
  | blocked => cases h
  | present entries =>
    have file : entries.get? old = some (.file content) := by
      simp only [contentAt] at there
      split at there
      · cases there
      · cases there
      · rename_i hc
        cases there
        exact hc
    simp only [rename, file] at h
    split at h
    · cases h
    · cases h
    · cases h
    · rename_i same _ _
      cases same
      cases h
      simp [contentAt]

/-- **A save that succeeds leaves the text of its record.** -/
theorem contentAt_of_saved (h : d.save naming path insights time = (.ok (), d')) :
    d'.contentAt (recordName naming path) =
      .ok (some (FileTree.encode (Record.text ⟨path, time, insights⟩))) := by
  unfold save at h
  split at h
  · cases h
  split at h
  · cases h
  rename_i d₁ _ d₂ drafted
  split at h
  · cases h
  rename_i d₃ published
  obtain rfl : d₃ = d' := (Prod.mk.inj h).2
  exact contentAt_of_rename published (contentAt_of_withFile drafted)

/-- **What a whole record has is loaded.** -/
theorem load_of_contentAt {directoryPath : String} (fits : ∀ i ∈ insights, i.Fits)
    (there : d.contentAt (recordName naming path) =
      .ok (some (FileTree.encode (Record.text ⟨path, time, insights⟩)))) :
    d.load naming directoryPath path = (.ok (some insights), []) := by
  unfold load
  rw [there]
  unfold interpret
  dsimp only
  rw [FileTree.decode_encode]
  dsimp only
  rw [Record.ofText?_text fits]
  simp

/-- **What was saved for a path is loaded for it.** -/
theorem load_of_saved {directoryPath : String} (fits : ∀ i ∈ insights, i.Fits)
    (h : d.save naming path insights time = (.ok (), d')) :
    d'.load naming directoryPath path = (.ok (some insights), []) :=
  load_of_contentAt fits (contentAt_of_saved h)

end RecordDirectory

/-- **What was saved for a path is loaded for it**, from memory and from records. -/
theorem InsightStore.load_of_saved {s s' : InsightStore} {path : String} {insights : List Insight}
    {time : Instant} (fits : ∀ i ∈ insights, i.Fits)
    (h : s.save path insights time = (.ok (), s')) :
    s'.load path = (.ok (some insights), []) := by
  cases s with
  | memory t =>
    cases h
    exact load_save_memory t insights time
  | records naming directoryPath d =>
    rcases hd : d.save naming path insights time with ⟨outcome, d'⟩
    simp only [save, hd] at h
    cases h
    exact RecordDirectory.load_of_saved fits hd

end CodeInsight
