import CodeInsight.Proofs.Store.Histories
import Mathlib.Logic.Function.Iterate

/-!
# Saves step by step

* a save makes the directory, writes the whole record under its first name and gives it its own name
  (`SavePhase`, `saveStep`); **done in one go it is these three steps** (`iterate_saveStep`);
* no step changes a record but the one that succeeds in giving a name, and that only the record of
  its own (`contentAt_saveStep`);
* where a directory holds files only (`Regular`), each step finds what it needs (`saveStep_begun`,
  `saveStep_roomMade`) but for the last, which needs the draft (`saveStep_drafted`,
  `saveStep_undrafted`).
-/

namespace CodeInsight

/-- How far a save has come. -/
inductive SavePhase where
  | begun
  | roomMade
  | drafted
  | ended (outcome : Except StoreFault Unit)

namespace RecordDirectory

/-! ## 1. Steps -/

/-- The next step of a save: how far it has come then, and the directory after it. -/
def saveStep (naming : String → String) (x : Saving) :
    SavePhase × RecordDirectory → SavePhase × RecordDirectory
  | (.begun, d) =>
    match d.makeRoom with
    | .error cause => (.ended (.error (.file cause)), d)
    | .ok d' => (.roomMade, d')
  | (.roomMade, d) =>
    match d.writeDraft naming x.path (FileTree.encode x.record.text) with
    | .error cause => (.ended (.error (.file cause)), d)
    | .ok d' => (.drafted, d')
  | (.drafted, d) =>
    match d.publish naming x.path with
    | .error cause => (.ended (.error (.file cause)), d)
    | .ok d' => (.ended (.ok ()), d')
  | (.ended outcome, d) => (.ended outcome, d)

section Steps

variable {naming : String → String} {x : Saving} {p name : String} {phase : SavePhase}
variable {d d' : RecordDirectory} {entries : Table RecordEntry}

/-- **A save done in one go** is its three steps with nothing in between. -/
theorem iterate_saveStep (naming : String → String) (x : Saving) (d : RecordDirectory) :
    (saveStep naming x)^[3] (.begun, d) =
      (.ended (d.save naming x.path x.insights x.time).1,
        (d.save naming x.path x.insights x.time).2) := by
  simp only [Function.iterate_succ, Function.iterate_zero, Function.comp_apply, id_eq, save]
  cases room : d.makeRoom with
  | error cause => simp only [saveStep, room]
  | ok d₁ =>
    have content : Record.text ⟨x.path, x.time, x.insights⟩ = x.record.text := rfl
    simp only [saveStep, room, content]
    cases draft : d₁.writeDraft naming x.path (FileTree.encode x.record.text) with
    | error cause => rfl
    | ok d₂ =>
      cases named : d₂.publish naming x.path with
      | error cause => simp only [named]
      | ok d₃ => simp only [named]

/-- **No step changes a record** but the one with which its save succeeds, and that one changes only
    the record of its own name. -/
theorem contentAt_saveStep (h : naming p ≠ naming x.path ∨
      (saveStep naming x (phase, d)).1 ≠ .ended (.ok ())) :
    (saveStep naming x (phase, d)).2.contentAt (recordName naming p) =
      d.contentAt (recordName naming p) := by
  cases phase with
  | begun =>
    rw [saveStep]
    cases room : d.makeRoom with
    | error cause => rfl
    | ok d' => exact contentAt_makeRoom room
  | roomMade =>
    rw [saveStep]
    cases draft : d.writeDraft naming x.path (FileTree.encode x.record.text) with
    | error cause => rfl
    | ok d' => exact contentAt_withFile (recordName_ne_draftName p x.path) draft
  | drafted =>
    rw [saveStep] at h ⊢
    cases named : d.publish naming x.path with
    | error cause => rfl
    | ok d' =>
      rw [named] at h
      have other : recordName naming p ≠ recordName naming x.path := by
        intro same
        rcases h with different | failed
        · exact different (recordName_inj same)
        · exact failed rfl
      exact contentAt_rename (recordName_ne_draftName p x.path) other named
  | ended outcome => rfl

/-! ## 2. Directories of files -/

/-- A directory that holds files only, or is not there yet. -/
def Regular : RecordDirectory → Prop
  | missing => True
  | blocked => False
  | present entries => ∀ name, entries.get? name ≠ some .directory

theorem Regular.set (h : (present entries).Regular) (name : String) (content : List UInt8) :
    (present (entries.set name (.file content))).Regular := by
  intro other
  by_cases same : other = name
  · subst same
    simp
  · rw [Table.get?_set_ne _ _ same]
    exact h other

theorem Regular.erase (h : (present entries).Regular) (name : String) :
    (present (entries.erase name)).Regular := by
  intro other
  by_cases same : other = name
  · subst same
    simp
  · rw [Table.get?_erase_ne _ same]
    exact h other

/-- The directory can be made or is there. -/
theorem saveStep_begun (naming : String → String) (x : Saving) (h : d.Regular) :
    ∃ entries, saveStep naming x (.begun, d) = (.roomMade, present entries) ∧
      (present entries).Regular ∧ ∀ name, (present entries).contentAt name = d.contentAt name := by
  cases d with
  | missing => exact ⟨.empty, rfl, fun name => by simp, fun name => rfl⟩
  | blocked => exact h.elim
  | present entries => exact ⟨entries, rfl, h, fun name => rfl⟩

/-- A file can be written where no directory is. -/
theorem writeDraft_regular (h : (present entries).Regular) (content : List UInt8) :
    (present entries).writeDraft naming p content =
      .ok (present (entries.set (draftName naming p) (.file content))) := by
  unfold writeDraft withFile
  dsimp only
  split
  · rename_i there
    exact absurd there (h _)
  · rfl

theorem saveStep_roomMade (h : (present entries).Regular) :
    saveStep naming x (.roomMade, present entries) = (.drafted, present
      (entries.set (draftName naming x.path) (.file (FileTree.encode x.record.text)))) := by
  rw [saveStep, writeDraft_regular h]

/-- A draft that is there becomes the record, **whoever wrote it**. -/
theorem saveStep_drafted (h : (present entries).Regular) {content : List UInt8}
    (draft : entries.get? (draftName naming x.path) = some (.file content)) :
    saveStep naming x (.drafted, present entries) = (.ended (.ok ()), present
      ((entries.erase (draftName naming x.path)).set (recordName naming x.path)
        (.file content))) := by
  have noDirectory := h (recordName naming x.path)
  unfold saveStep publish rename
  dsimp only
  rw [draft]
  cases there : entries.get? (recordName naming x.path) with
  | none => rfl
  | some entry =>
    cases entry with
    | file old => rfl
    | directory => exact absurd there noDirectory

/-- Where no draft is, none can be given the record's name. -/
theorem saveStep_undrafted (draft : entries.get? (draftName naming x.path) = none) :
    saveStep naming x (.drafted, present entries) =
      (.ended (.error (.file .missing)), present entries) := by
  unfold saveStep publish rename
  dsimp only
  rw [draft]

/-- **No step makes a directory** in a directory of files. -/
theorem regular_saveStep (naming : String → String) (x : Saving) (h : d.Regular)
    (phase : SavePhase) : (saveStep naming x (phase, d)).2.Regular := by
  cases phase with
  | begun =>
    obtain ⟨entries, step, regular, -⟩ := saveStep_begun naming x h
    rw [step]
    exact regular
  | roomMade =>
    cases d with
    | missing => trivial
    | blocked => exact h.elim
    | present entries =>
      rw [saveStep_roomMade h]
      exact h.set _ _
  | drafted =>
    cases d with
    | missing => trivial
    | blocked => exact h.elim
    | present entries =>
      cases draft : entries.get? (draftName naming x.path) with
      | none =>
        rw [saveStep_undrafted draft]
        exact h
      | some entry =>
        cases entry with
        | directory => exact absurd draft (h _)
        | file content =>
          rw [saveStep_drafted h draft]
          exact (h.erase _).set _ _
  | ended outcome => exact h

end Steps

end RecordDirectory

end CodeInsight
