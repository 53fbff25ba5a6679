import CodeInsight.Proofs.Store.Steps
import CodeInsight.Store.Digest

/-!
# Saves that do not get done

* a save is `Unfinished` if it stops after some of its steps, or fails in one
  (`unfinished_of_failed`), or if it breaks off while it writes the record under its first name, so
  that only a beginning of it is there;
* **what an unfinished save leaves reads as what was there before** (`load_of_unfinished`): drafts
  are never read;
* a directory of files stays one whatever saves, clears and unfinished saves are made of it
  (`Regular.becomes`), so whatever is left behind, **a later save succeeds and is what is loaded**
  (`unfinished_unseen`).
-/

namespace CodeInsight.RecordDirectory

variable {naming : String → String} {x : Saving} {p : String}
variable {d d' e : RecordDirectory}

/-! ## 1. What is left -/

/-- What a save leaves of a directory if it does not succeed: it stopped after some steps, a step
    that failed included, or while it was writing the draft, of which it had written `n` bytes. -/
inductive Unfinished (naming : String → String) (x : Saving) (d : RecordDirectory) :
    RecordDirectory → Prop
  | stopped {n : Nat} {phase : SavePhase} {d' : RecordDirectory}
      (steps : (saveStep naming x)^[n] (.begun, d) = (phase, d'))
      (notDone : phase ≠ .ended (.ok ())) : Unfinished naming x d d'
  | torn {n : Nat} {room d' : RecordDirectory}
      (made : saveStep naming x (.begun, d) = (.roomMade, room))
      (part : room.writeDraft naming x.path ((FileTree.encode x.record.text).take n) = .ok d') :
      Unfinished naming x d d'

/-- A save that fails is unfinished. -/
theorem unfinished_of_failed {cause : StoreFault}
    (h : d.save naming x.path x.insights x.time = (.error cause, d')) :
    Unfinished naming x d d' := by
  have steps : (saveStep naming x)^[3] (.begun, d) = (.ended (.error cause), d') := by
    rw [iterate_saveStep, h]
  exact .stopped steps (by simp)

/-- Steps that do not lead to success change no record. -/
theorem contentAt_iterate {n : Nat} {phase : SavePhase}
    (steps : (saveStep naming x)^[n] (.begun, d) = (phase, d'))
    (notDone : phase ≠ .ended (.ok ())) :
    d'.contentAt (recordName naming p) = d.contentAt (recordName naming p) := by
  induction n generalizing phase d' with
  | zero =>
    obtain ⟨-, rfl⟩ := Prod.mk.inj steps
    rfl
  | succ n ih =>
    rcases before : (saveStep naming x)^[n] (.begun, d) with ⟨phase', between⟩
    rw [Function.iterate_succ_apply', before] at steps
    -- a save that has succeeded does nothing more, so it had not before its last step either
    have notBefore : phase' ≠ .ended (.ok ()) := by
      rintro rfl
      exact notDone (Prod.mk.inj steps).1.symm
    have last : (saveStep naming x (phase', between)).1 ≠ .ended (.ok ()) := by
      rw [steps]
      exact notDone
    have frame := contentAt_saveStep (p := p) (.inr last)
    rw [steps] at frame
    exact frame.trans (ih before notBefore)

/-- **An unfinished save changes no record.** -/
theorem contentAt_of_unfinished (h : Unfinished naming x d d') :
    d'.contentAt (recordName naming p) = d.contentAt (recordName naming p) := by
  cases h with
  | stopped steps notDone => exact contentAt_iterate steps notDone
  | torn made part =>
    rename_i room
    have made' : (saveStep naming x)^[1] (.begun, d) = (.roomMade, room) := made
    have madeRoom : room.contentAt (recordName naming p) = d.contentAt (recordName naming p) :=
      contentAt_iterate made' (by simp)
    exact (contentAt_withFile (recordName_ne_draftName p x.path) part).trans madeRoom

/-- **What an unfinished save leaves reads as what was there before.** -/
theorem load_of_unfinished (h : Unfinished naming x d d') (directoryPath p : String) :
    d'.load naming directoryPath p = d.load naming directoryPath p :=
  load_eq_of_contentAt (contentAt_of_unfinished h)

/-! ## 2. What becomes of a directory -/

/-- `Becomes naming d e`: `e` is what became of `d` by saves, clears and unfinished saves. -/
inductive Becomes (naming : String → String) (d : RecordDirectory) : RecordDirectory → Prop
  | same : Becomes naming d d
  | saved {e : RecordDirectory} (before : Becomes naming d e) (x : Saving) :
      Becomes naming d (e.save naming x.path x.insights x.time).2
  | cleared {e : RecordDirectory} (before : Becomes naming d e) : Becomes naming d e.clear.2
  | cutOff {e e' : RecordDirectory} {x : Saving} (before : Becomes naming d e)
      (h : Unfinished naming x e e') : Becomes naming d e'

theorem Regular.iterate (naming : String → String) (x : Saving) (h : d.Regular) (n : Nat)
    (phase : SavePhase) : ((saveStep naming x)^[n] (phase, d)).2.Regular := by
  induction n with
  | zero => exact h
  | succ n ih =>
    rw [Function.iterate_succ_apply']
    exact regular_saveStep naming x ih _

theorem Regular.save (h : d.Regular) (x : Saving) :
    (d.save naming x.path x.insights x.time).2.Regular := by
  have steps := h.iterate naming x 3 .begun
  rw [iterate_saveStep] at steps
  exact steps

/-- What is removed is gone, and what is left was there. -/
theorem get?_removeRecords {names : List String} {entries : Table RecordEntry} {name : String}
    {entry : RecordEntry} (h : (removeRecords names entries).2.get? name = some entry) :
    entries.get? name = some entry := by
  induction names generalizing entries with
  | nil => exact h
  | cons first names ih =>
    rw [removeRecords] at h
    split at h
    · split at h
      · exact h
      · have kept := ih h
        by_cases same : name = first
        · subst same
          simp at kept
        · rwa [Table.get?_erase_ne _ same] at kept
    · exact ih h

theorem Regular.clear (h : d.Regular) : d.clear.2.Regular := by
  cases d with
  | missing => trivial
  | blocked => exact h.elim
  | present entries => exact fun name there => h name (get?_removeRecords there)

theorem Regular.unfinished (h : d.Regular) (unfinished : Unfinished naming x d d') :
    d'.Regular := by
  cases unfinished with
  | @stopped n phase _ steps notDone =>
    have all := h.iterate naming x n .begun
    rwa [steps] at all
  | torn made part =>
    obtain ⟨entries, step, regular, -⟩ := saveStep_begun naming x h
    obtain ⟨-, rfl⟩ := Prod.mk.inj (made.symm.trans step)
    rw [writeDraft_regular regular] at part
    cases part
    exact regular.set _ _

/-- **A directory of files stays one.** -/
theorem Regular.becomes (h : d.Regular) (grown : Becomes naming d e) : e.Regular := by
  induction grown with
  | same => exact h
  | saved _ x ih => exact ih.save x
  | cleared _ ih => exact ih.clear
  | cutOff _ unfinished ih => exact ih.unfinished unfinished

theorem Becomes.trans {later : RecordDirectory} (h : Becomes naming d e)
    (h' : Becomes naming e later) : Becomes naming d later := by
  induction h' with
  | same => exact h
  | saved _ x ih => exact ih.saved x
  | cleared _ ih => exact ih.cleared
  | cutOff _ unfinished ih => exact ih.cutOff unfinished

/-- In a directory of files a save succeeds. -/
theorem Regular.exists_saved (h : d.Regular) (naming : String → String) (x : Saving) :
    ∃ e, d.save naming x.path x.insights x.time = (.ok (), e) := by
  obtain ⟨entries, begun, regular, -⟩ := saveStep_begun naming x h
  have all := iterate_saveStep naming x d
  simp only [Function.iterate_succ, Function.iterate_zero, Function.comp_apply, id_eq] at all
  rw [begun, saveStep_roomMade regular,
    saveStep_drafted (regular.set _ _) (Table.get?_set_self _ _ _)] at all
  obtain ⟨outcome, rest⟩ := Prod.mk.inj all
  exact ⟨_, Prod.ext (SavePhase.ended.inj outcome).symm rest.symm⟩

/-- A directory in which nothing was saved yet. -/
def New (d : RecordDirectory) : Prop := d = .missing ∨ d = .present .empty

theorem New.regular (h : d.New) : d.Regular := by
  rcases h with rfl | rfl
  · trivial
  · exact fun name => by simp

/-! ## 3. Unfinished saves are unseen -/

/-- **An unfinished save changes nothing that can be read**, whatever the directory held: for every
    path the answer is the one given before. And whatever else is made of the directory after it,
    more unfinished saves included, a save that succeeds is what is loaded for its path; it does
    succeed if the directory was once new and nothing but saves, clears and unfinished saves were
    made of it. -/
theorem unfinished_unseen (h : Unfinished naming x d d') :
    (∀ directoryPath p, d'.load naming directoryPath p = d.load naming directoryPath p) ∧
      ∀ later, Becomes naming d' later → ∀ y : Saving, y.Fits →
        (∀ e, later.save naming y.path y.insights y.time = (.ok (), e) →
          ∀ directoryPath, e.load naming directoryPath y.path = (.ok (some y.insights), [])) ∧
        (∀ start : RecordDirectory, start.New → Becomes naming start d →
          ∃ e, later.save naming y.path y.insights y.time = (.ok (), e)) := by
  refine ⟨load_of_unfinished h, fun later grown y fits => ⟨fun e saved directoryPath => ?_,
    fun start new before => ?_⟩⟩
  · exact load_of_saved fits saved
  · exact (new.regular.becomes ((before.cutOff h).trans grown)).exists_saved naming y

/-- A saving of no insights. -/
def nothingFound : Saving := ⟨"a.ts", [], .epoch⟩

/-- A saving of one insight for the same path. -/
def somethingFound : Saving :=
  ⟨"a.ts", [⟨Identity.text 1, ⟨"a.ts", 1, 1, .info, .intent, "found"⟩, .epoch⟩], .epoch⟩

theorem somethingFound_fits : somethingFound.Fits := List.forall_mem_singleton.mpr (by decide)

/-- After a save, another one breaks off when ten bytes of its draft are written: the first is what
    is loaded, until a save is done. -/
theorem unfinished_unseen_torn :
    ∃ d room d' e : RecordDirectory,
      RecordDirectory.missing.save Digest.digest "a.ts" [] .epoch = (.ok (), d) ∧
      saveStep Digest.digest somethingFound (.begun, d) = (.roomMade, room) ∧
      room.writeDraft Digest.digest "a.ts" ((FileTree.encode somethingFound.record.text).take 10) =
        .ok d' ∧
      d'.load Digest.digest "insights" "a.ts" = (.ok (some []), []) ∧
      d'.save Digest.digest "a.ts" somethingFound.insights .epoch = (.ok (), e) ∧
      e.load Digest.digest "insights" "a.ts" = (.ok (some somethingFound.insights), []) := by
  have new : New .missing := .inl rfl
  obtain ⟨d, saved⟩ := new.regular.exists_saved Digest.digest nothingFound
  have before : Becomes Digest.digest .missing d := by
    have grown : Becomes Digest.digest .missing
        (RecordDirectory.missing.save Digest.digest nothingFound.path nothingFound.insights
          nothingFound.time).2 :=
      .saved .same nothingFound
    rwa [saved] at grown
  obtain ⟨entries, made, regular, -⟩ :=
    saveStep_begun Digest.digest somethingFound (new.regular.becomes before)
  have part : (present entries).writeDraft Digest.digest somethingFound.path
      ((FileTree.encode somethingFound.record.text).take 10) = .ok _ :=
    writeDraft_regular regular _
  have seen := unfinished_unseen (.torn made part)
  obtain ⟨e, done⟩ := (seen.2 _ .same somethingFound somethingFound_fits).2 .missing new before
  exact ⟨d, _, _, e, saved, made, part,
    (seen.1 "insights" "a.ts").trans (load_of_saved (List.forall_mem_nil _) saved), done,
    (seen.2 _ .same somethingFound somethingFound_fits).1 e done "insights"⟩

end CodeInsight.RecordDirectory
