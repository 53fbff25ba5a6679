import CodeInsight.Proofs.Store.Filing
import CodeInsight.Proofs.Store.Kept
import CodeInsight.Store.Digest
import Mathlib.Data.List.Find

/-!
# Histories of a store

* a history is a list of calls, the first in front; `savings` is what was saved since the last
  call that cleared, and `answer` is what a store that keeps the last saving under each name says
  to the next call;
* a directory of records holds the savings (`RecordDirectory.Holds`), and each call keeps that
  (`save_of_holds`, `clear_of_holds`), so **its answers are those of the savings, whatever names
  the records** (`InsightStore.call_records`, `InsightStore.call_memory` for a store in memory);
* **records are a map** (`InsightStore.records_isMap`): of two paths with one name only the one
  that was saved last is known, and if the paths have different names, records and memory give the
  same answers;
* the digests that name records are hexadecimal numbers (`Digest.isHexName_digest`).
-/

namespace CodeInsight

/-! ## 1. Calls -/

/-- Insights that are saved for a path at a time. -/
structure Saving where
  path : String
  insights : List Insight
  time : Instant

namespace Saving

/-- Its insights can be told from their encoding. -/
def Fits (x : Saving) : Prop := ∀ i ∈ x.insights, i.Fits

/-- The record of it. -/
def record (x : Saving) : Record := ⟨x.path, x.time, x.insights⟩

/-- What is read of its record: all but the time is what was saved. -/
theorem ofText?_record {x : Saving} (fits : x.Fits) :
    Record.ofText? x.record.text = some ⟨x.path, x.time.civil, x.insights⟩ :=
  Record.ofText?_text fits

end Saving

/-- A call of a store. -/
inductive StoreCall where
  | save (saving : Saving)
  | load (path : String)
  | clear

/-- The path a call is about, if it is about one. -/
def StoreCall.path? : StoreCall → Option String
  | .save x => some x.path
  | .load path => some path
  | .clear => none

/-- What a call that succeeds answers. -/
inductive StoreAnswer where
  | saved
  | loaded (insights : Option (List Insight))
  | cleared (count : Nat)

namespace InsightStore

/-- The answer to a call, and the store after it. -/
def call (s : InsightStore) : StoreCall → Except StoreFault StoreAnswer × InsightStore
  | .save x =>
    let (outcome, s') := s.save x.path x.insights x.time
    (outcome.map fun _ => .saved, s')
  | .load path => ((s.load path).1.map .loaded, s)
  | .clear =>
    let (outcome, s') := s.clear
    (outcome.map .cleared, s')

/-- The store after calls. -/
def after (s : InsightStore) (calls : List StoreCall) : InsightStore :=
  calls.foldl (fun s c => (s.call c).2) s

/-- The answers to calls, one after the other. -/
def answers : InsightStore → List StoreCall → List (Except StoreFault StoreAnswer)
  | _, [] => []
  | s, c :: cs => (s.call c).1 :: (s.call c).2.answers cs

theorem after_concat (s : InsightStore) (past : List StoreCall) (c : StoreCall) :
    s.after (past ++ [c]) = ((s.after past).call c).2 := by
  simp [after]

theorem answers_concat (s : InsightStore) (past : List StoreCall) (c : StoreCall) :
    s.answers (past ++ [c]) = s.answers past ++ [((s.after past).call c).1] := by
  induction past generalizing s with
  | nil => rfl
  | cons d past ih => exact congrArg _ (ih (s.call d).2)

end InsightStore

/-! ## 2. What is to be answered -/

section Answers

variable {naming : String → String} {past : List StoreCall} {p : String} {is : List Insight}

/-- What was saved since the last call that cleared, in order. -/
def savings (past : List StoreCall) : List Saving :=
  past.foldl (fun kept c =>
    match c with
    | .save x => kept ++ [x]
    | .load _ => kept
    | .clear => []) []

@[simp] theorem savings_save (past : List StoreCall) (x : Saving) :
    savings (past ++ [.save x]) = savings past ++ [x] := by
  simp [savings]

@[simp] theorem savings_load (past : List StoreCall) (p : String) :
    savings (past ++ [.load p]) = savings past := by
  simp [savings]

@[simp] theorem savings_clear (past : List StoreCall) : savings (past ++ [.clear]) = [] := by
  simp [savings]

theorem mem_of_mem_savings {x : Saving} (h : x ∈ savings past) : .save x ∈ past := by
  induction past using List.reverseRecOn with
  | nil => cases h
  | append_singleton past c ih =>
    cases c with
    | save y =>
      rw [savings_save] at h
      rcases List.mem_append.mp h with h | h
      · exact List.mem_append_left _ (ih h)
      · exact List.mem_append_right _ (List.mem_singleton.mp h ▸ List.mem_singleton_self _)
    | load q => exact List.mem_append_left _ (ih (savings_load past q ▸ h))
    | clear =>
      rw [savings_clear] at h
      cases h

/-- Of all that was saved since the last call that cleared for paths with the name of this one, the
    last were these insights, and for this path. -/
def LastSaved (naming : String → String) (past : List StoreCall) (p : String)
    (is : List Insight) : Prop :=
  ∃ before time after, savings past = before ++ ⟨p, is, time⟩ :: after ∧
    ∀ x ∈ after, naming x.path ≠ naming p

/-- The names under which something was saved since the last call that cleared. -/
def namesSaved (naming : String → String) (past : List StoreCall) : Finset String :=
  ((savings past).map fun x => naming x.path).toFinset

/-- The last saving under a name. -/
def lastUnder (naming : String → String) (past : List StoreCall) (name : String) : Option Saving :=
  (savings past).reverse.find? fun x => decide (naming x.path = name)

/-- The insights of a saving if it was for the path. -/
def Saving.insightsFor? (p : String) (x : Saving) : Option (List Insight) :=
  if x.path = p then some x.insights else none

/-- What a store answers that knows the last saving under each name. -/
def answer (naming : String → String) (past : List StoreCall) : StoreCall → StoreAnswer
  | .save _ => .saved
  | .load p => .loaded ((lastUnder naming past (naming p)).bind (Saving.insightsFor? p))
  | .clear => .cleared (namesSaved naming past).card

theorem lastUnder_bind_eq_some_iff :
    (lastUnder naming past (naming p)).bind (Saving.insightsFor? p) = some is ↔
      LastSaved naming past p is := by
  unfold lastUnder Saving.insightsFor?
  simp only [Option.bind_eq_some_iff, List.find?_eq_some_iff_append, Option.ite_none_right_eq_some,
    Option.some.injEq, decide_eq_true_eq]
  constructor
  · intro ⟨x, ⟨_, after, before, split, other⟩, hp, his⟩
    obtain ⟨q, js, time⟩ := x
    subst hp his
    refine ⟨before.reverse, time, after.reverse, ?_, fun y hy => ?_⟩
    · simpa using congrArg List.reverse split
    · simpa using other y (List.mem_reverse.mp hy)
  · intro ⟨before, time, after, split, other⟩
    refine ⟨⟨p, is, time⟩, ⟨rfl, after.reverse, before.reverse, ?_, fun y hy => ?_⟩, rfl, rfl⟩
    · simp [split]
    · simpa using other y (List.mem_reverse.mp hy)

/-- If the paths used have different names, the names may as well be the paths. -/
theorem answer_of_injOn {c : StoreCall}
    (inj : Set.InjOn naming {p | ∃ d ∈ past ++ [c], d.path? = some p}) :
    answer naming past c = answer id past c := by
  have used : ∀ x ∈ savings past, x.path ∈ {p | ∃ d ∈ past ++ [c], d.path? = some p} :=
    fun x hx => ⟨.save x, List.mem_append_left _ (mem_of_mem_savings hx), rfl⟩
  cases c with
  | save x => rfl
  | load p =>
    have asked : p ∈ {q | ∃ d ∈ past ++ [.load p], d.path? = some q} :=
      ⟨.load p, List.mem_append_right _ (List.mem_singleton_self _), rfl⟩
    have same : lastUnder naming past (naming p) = lastUnder id past p := by
      refine List.find?_congr fun x hx => ?_
      have hx := used x (List.mem_reverse.mp hx)
      simp only [id_eq, decide_eq_decide]
      exact ⟨fun h => inj hx asked h, fun h => congrArg naming h⟩
    simp only [answer, same, id_eq]
  | clear =>
    have image : namesSaved naming past = (namesSaved id past).image naming := by
      ext name
      simp [namesSaved]
    have inj' : Set.InjOn naming (namesSaved id past) := by
      refine inj.mono fun q hq => ?_
      obtain ⟨x, hx, rfl⟩ := List.mem_map.mp (List.mem_toFinset.mp (Finset.mem_coe.mp hq))
      exact used x hx
    simp only [answer, image, Finset.card_image_of_injOn inj']

end Answers

/-! ## 3. A directory of records -/

/-- Whether a text is a hexadecimal number: a digit or more, the letters in either case. -/
def isHexName (s : String) : Bool :=
  !s.toList.isEmpty && s.toList.all fun c => Identity.isHex c || ('A' ≤ c && c ≤ 'F')

namespace RecordDirectory

variable {naming : String → String} {d : RecordDirectory} {xs : List Saving} {p : String}

/-- What the entries of a directory are if just these savings were made, in this order. -/
def entriesOf (naming : String → String) (xs : List Saving) : Table RecordEntry :=
  Table.filed (fun x => recordName naming x.path)
    (fun x => .file (FileTree.encode x.record.text)) xs

/-- The directory holds what was saved; before the first save it may not be there. -/
def Holds (naming : String → String) (xs : List Saving) (d : RecordDirectory) : Prop :=
  d = .present (entriesOf naming xs) ∨ (d = .missing ∧ xs = [])

theorem get?_entriesOf (xs : List Saving) (p : String) :
    (entriesOf naming xs).get? (recordName naming p) =
      (xs.reverse.find? fun x => decide (naming x.path = naming p)).map
        fun x => .file (FileTree.encode x.record.text) := by
  unfold entriesOf
  rw [Table.get?_filed]
  congr 2
  funext x
  exact decide_eq_decide.mpr ⟨recordName_inj, fun same => congrArg (· ++ ".json") same⟩

theorem get?_entriesOf_ne_directory (xs : List Saving) (name : String) :
    (entriesOf naming xs).get? name ≠ some .directory := by
  unfold entriesOf
  rw [Table.get?_filed]
  simp

theorem draftName_not_mem (xs : List Saving) (p : String) :
    draftName naming p ∉ (entriesOf naming xs).paths := by
  unfold entriesOf
  rw [Table.mem_paths_filed, List.mem_map]
  intro ⟨x, _, same⟩
  exact recordName_ne_draftName x.path p same

section Save

variable {entries : Table RecordEntry} {content : List UInt8}

theorem writeDraft_present (free : draftName naming p ∉ entries.paths) :
    (present entries).writeDraft naming p content =
      .ok (present (entries.set (draftName naming p) (.file content))) := by
  unfold writeDraft withFile
  dsimp only
  rw [Table.get?_eq_none_iff.mpr free]

/-- A draft takes the place of the record it is named after, so nothing of it stays. -/
theorem publish_drafted (free : draftName naming p ∉ entries.paths)
    (noDirectory : entries.get? (recordName naming p) ≠ some .directory) :
    (present (entries.set (draftName naming p) (.file content))).publish naming p =
      .ok (present (entries.set (recordName naming p) (.file content))) := by
  unfold publish rename
  dsimp only
  rw [Table.get?_set_self, Table.get?_set_ne _ _ (recordName_ne_draftName p p),
    Table.erase_set_of_not_mem _ free]
  cases there : entries.get? (recordName naming p) with
  | none => rfl
  | some entry =>
    cases entry with
    | file old => rfl
    | directory => exact absurd there noDirectory

/-- **A save succeeds and adds to what is held.** -/
theorem save_of_holds (h : Holds naming xs d) (x : Saving) :
    d.save naming x.path x.insights x.time = (.ok (), .present (entriesOf naming (xs ++ [x]))) := by
  have room : d.makeRoom = .ok (.present (entriesOf naming xs)) := by
    rcases h with rfl | ⟨rfl, rfl⟩
    · rfl
    · rfl
  have free : draftName naming x.path ∉ (entriesOf naming xs).paths := draftName_not_mem xs x.path
  have filed : entriesOf naming (xs ++ [x]) = (entriesOf naming xs).set (recordName naming x.path)
      (.file (FileTree.encode x.record.text)) := Table.filed_concat xs x
  unfold save
  rw [room]
  dsimp only
  rw [writeDraft_present free]
  dsimp only
  rw [publish_drafted free (get?_entriesOf_ne_directory xs _), filed]
  rfl

end Save

/-- **A load finds the last saving under the name**, and says nothing if it was for another path. -/
theorem load_of_holds (h : Holds naming xs d) (fits : ∀ x ∈ xs, x.Fits) (directoryPath p : String) :
    (d.load naming directoryPath p).1 =
      .ok ((xs.reverse.find? fun x => decide (naming x.path = naming p)).bind
        (Saving.insightsFor? p)) := by
  rcases h with rfl | ⟨rfl, rfl⟩
  · unfold load contentAt
    dsimp only
    rw [get?_entriesOf]
    cases found : xs.reverse.find? fun x => decide (naming x.path = naming p) with
    | none => rfl
    | some x =>
      have hx : x ∈ xs := List.mem_reverse.mp (List.mem_of_find?_eq_some found)
      simp only [Option.map_some, Option.bind_some, interpret, FileTree.decode_encode,
        Saving.ofText?_record (fits x hx), Saving.insightsFor?]
      by_cases own : x.path = p
      · simp [own]
      · simp [own]
  · rfl

/-! ### Clearing -/

/-- The last dot of a name is the one behind which there is none. -/
theorem splitLastDot?_append {stem ext : List Char} (h : ∀ c ∈ ext, c ≠ '.') :
    Path.splitLastDot? (stem ++ '.' :: ext) = some (stem, ext) := by
  have behind : ((stem ++ '.' :: ext).reverse.takeWhile (· != '.')).reverse = ext := by
    rw [List.reverse_append, List.reverse_cons, List.append_assoc,
      List.takeWhile_append_of_pos fun c hc => bne_iff_ne.mpr (h c (List.mem_reverse.mp hc))]
    simp
  have upTo : (stem ++ '.' :: ext).take ((stem ++ '.' :: ext).length - ext.length) =
      stem ++ ['.'] := by
    rw [List.append_cons, List.length_append, Nat.add_sub_cancel, List.take_left]
  unfold Path.splitLastDot?
  rw [behind]
  dsimp only
  rw [upTo]
  simp

theorem isRecordName_of_isHexName (h : isHexName (naming p) = true) :
    isRecordName (recordName naming p) = true := by
  have some' : (naming p).toList ≠ [] := by
    intro none
    simp [isHexName, none] at h
  have split : Path.splitLastDot? (recordName naming p).toList =
      some ((naming p).toList, "json".toList) := by
    have dotless : ∀ c ∈ ['j', 's', 'o', 'n'], c ≠ '.' := by simp
    rw [recordName, String.toList_append]
    exact splitLastDot?_append dotless
  unfold isRecordName Path.nameExtension?
  rw [split]
  simp [some']

/-- Files with names of records are all removed. -/
theorem removeRecords_of_files {t : Table RecordEntry} {names : List String}
    (records : ∀ name ∈ names, isRecordName name = true)
    (files : ∀ name, t.get? name ≠ some .directory) :
    removeRecords names t = (.ok names.length, names.foldl Table.erase t) := by
  induction names generalizing t with
  | nil => rfl
  | cons name names ih =>
    obtain ⟨record, rest⟩ := List.forall_mem_cons.mp records
    have files' : ∀ other, (t.erase name).get? other ≠ some .directory := by
      intro other
      by_cases same : other = name
      · simp [same]
      · rw [Table.get?_erase_ne t same]
        exact files other
    unfold removeRecords
    rw [if_pos record]
    split
    · rename_i there
      exact absurd there (files name)
    · rw [ih rest files']
      rfl

theorem paths_foldl_erase (t : Table RecordEntry) (names : List String) :
    (names.foldl Table.erase t).paths = t.paths.filter fun path => decide (path ∉ names) := by
  induction names generalizing t with
  | nil => simp
  | cons name names ih =>
    rw [List.foldl_cons, ih, Table.paths_erase, List.filter_filter]
    refine List.filter_congr fun path _ => ?_
    by_cases same : path = name
    · simp [same]
    · simp [same]

/-- **A clear counts the names and leaves nothing.** -/
theorem clear_of_holds (hex : ∀ p, isHexName (naming p) = true) (h : Holds naming xs d) :
    d.clear.1 = .ok (xs.map fun x => naming x.path).toFinset.card ∧ Holds naming [] d.clear.2 := by
  rcases h with rfl | ⟨rfl, rfl⟩
  · have records : ∀ name ∈ (entriesOf naming xs).keys, isRecordName name = true := by
      intro name hname
      obtain ⟨x, -, rfl⟩ := List.mem_map.mp (Table.mem_paths_filed.mp (Table.mem_keys.mp hname))
      exact isRecordName_of_isHexName (hex x.path)
    have files : ∀ name, (entriesOf naming xs).get? name ≠ some .directory :=
      get?_entriesOf_ne_directory xs
    have removed := removeRecords_of_files records files
    have nothing :
        (entriesOf naming xs).keys.foldl Table.erase (entriesOf naming xs) = .empty := by
      refine Table.eq_empty_of_paths ?_
      rw [paths_foldl_erase, List.filter_eq_nil_iff]
      intro path hpath
      simp [Table.mem_keys.mpr hpath]
    have names : (xs.map fun x => recordName naming x.path).toFinset =
        (xs.map fun x => naming x.path).toFinset.image (· ++ ".json") := by
      ext name
      simp [recordName]
    have count : (entriesOf naming xs).keys.length =
        (xs.map fun x => naming x.path).toFinset.card := by
      rw [Table.length_keys, entriesOf, Table.size_filed, names]
      refine Finset.card_image_of_injective _ fun a b same => ?_
      exact @recordName_inj id a b same
    simp only [clear, removed, nothing, count]
    exact ⟨rfl, .inl rfl⟩
  · exact ⟨rfl, .inr ⟨rfl, rfl⟩⟩

end RecordDirectory

/-! ## 4. Answers -/

namespace InsightStore

variable {naming : String → String} {directoryPath : String} {d : RecordDirectory}
variable {past : List StoreCall}

/-- The insights of every saving of a history can be told from their encoding. -/
def AllFit (past : List StoreCall) : Prop := ∀ x, StoreCall.save x ∈ past → x.Fits

theorem AllFit.left {later : List StoreCall} (h : AllFit (past ++ later)) : AllFit past :=
  fun x hx => h x (List.mem_append_left _ hx)

/-- The records after calls hold what was saved by them. -/
theorem after_records (directoryPath : String) (hex : ∀ p, isHexName (naming p) = true)
    (new : d = .missing ∨ d = .present .empty) (past : List StoreCall) :
    ∃ d', (records naming directoryPath d).after past = .records naming directoryPath d' ∧
      d'.Holds naming (savings past) := by
  induction past using List.reverseRecOn with
  | nil => exact ⟨d, rfl, new.symm.imp_right fun missing => ⟨missing, rfl⟩⟩
  | append_singleton past c ih =>
    obtain ⟨d', same, holds⟩ := ih
    rw [after_concat, same]
    cases c with
    | save x =>
      rw [savings_save]
      refine ⟨.present (RecordDirectory.entriesOf naming (savings past ++ [x])), ?_, .inl rfl⟩
      simp only [call, save, RecordDirectory.save_of_holds holds x]
    | load p =>
      rw [savings_load]
      exact ⟨d', rfl, holds⟩
    | clear =>
      rw [savings_clear]
      exact ⟨d'.clear.2, rfl, (RecordDirectory.clear_of_holds hex holds).2⟩

/-- **Records answer as a store that knows the last saving under each name.** -/
theorem call_records (hex : ∀ p, isHexName (naming p) = true)
    (new : d = .missing ∨ d = .present .empty) (fits : AllFit past) (c : StoreCall) :
    (((records naming directoryPath d).after past).call c).1 = .ok (answer naming past c) := by
  obtain ⟨d', same, holds⟩ := after_records directoryPath hex new past
  have fits' : ∀ x ∈ savings past, x.Fits := fun x hx => fits x (mem_of_mem_savings hx)
  rw [same]
  cases c with
  | save x =>
    simp only [call, save, RecordDirectory.save_of_holds holds x]
    rfl
  | load p =>
    simp only [call, load, RecordDirectory.load_of_holds holds fits' directoryPath p]
    rfl
  | clear =>
    simp only [call, clear, (RecordDirectory.clear_of_holds hex holds).1]
    rfl

theorem after_memory (past : List StoreCall) :
    (memory .empty).after past = .memory (Table.filed (·.path) (·.insights) (savings past)) := by
  induction past using List.reverseRecOn with
  | nil => rfl
  | append_singleton past c ih =>
    rw [after_concat, ih]
    cases c with
    | save x => rw [savings_save, Table.filed_concat]; rfl
    | load p => rw [savings_load]; rfl
    | clear => rw [savings_clear]; rfl

/-- **A store in memory answers as if each path was its own name.** -/
theorem call_memory (past : List StoreCall) (c : StoreCall) :
    (((memory .empty).after past).call c).1 = .ok (answer id past c) := by
  rw [after_memory]
  cases c with
  | save x => rfl
  | load p =>
    simp only [call, load, answer, lastUnder, id_eq, Table.get?_filed]
    cases found : (savings past).reverse.find? fun x => decide (x.path = p) with
    | none => rfl
    | some x =>
      have own : x.path = p := by simpa using List.find?_some found
      simp [Saving.insightsFor?, own, Except.map]
  | clear =>
    simp only [call, clear, Table.size_filed]
    rfl

/-- After calls a store is a map: each path has the insights that were saved for it last, unless
    something was saved for another path with its name since. -/
structure IsMap (naming : String → String) (past : List StoreCall) (s : InsightStore) : Prop where
  saves : ∀ x, (s.call (.save x)).1 = .ok .saved
  loads : ∀ p is, (s.call (.load p)).1 = .ok (.loaded (some is)) ↔ LastSaved naming past p is
  loadsNothing : ∀ p, (s.call (.load p)).1 = .ok (.loaded none) ↔ ∀ is, ¬ LastSaved naming past p is
  clears : (s.call .clear).1 = .ok (.cleared (namesSaved naming past).card)

theorem IsMap.of_answer {s : InsightStore} (h : ∀ c, (s.call c).1 = .ok (answer naming past c)) :
    IsMap naming past s where
  saves x := h (.save x)
  loads p is := by
    rw [h, ← lastUnder_bind_eq_some_iff]
    simp [answer]
  loadsNothing p := by
    simp only [h, ← lastUnder_bind_eq_some_iff]
    simp [answer, Option.eq_none_iff_forall_ne_some]
  clears := h .clear

/-- **Records are a map, whatever names them**, as long as the names are hexadecimal numbers: after
    any calls on a directory that was new, a load gives what the last save under the path's name
    was for this path, so never what was saved for another, and a saved empty list is not nothing;
    a clear counts the names. If the paths used have different names, every answer is the one that
    a store in memory gives to the same calls. -/
theorem records_isMap (hex : ∀ p, isHexName (naming p) = true)
    (new : d = .missing ∨ d = .present .empty) (fits : AllFit past) :
    IsMap naming past ((records naming directoryPath d).after past) ∧
      (Set.InjOn naming {p | ∃ c ∈ past, c.path? = some p} →
        (records naming directoryPath d).answers past = (memory .empty).answers past) := by
  refine ⟨.of_answer (call_records hex new fits), fun inj => ?_⟩
  induction past using List.reverseRecOn with
  | nil => rfl
  | append_singleton past c ih =>
    have before : Set.InjOn naming {p | ∃ c ∈ past, c.path? = some p} := by
      refine inj.mono fun p used => ?_
      obtain ⟨d, hd, hp⟩ := used
      exact ⟨d, List.mem_append_left _ hd, hp⟩
    rw [answers_concat, answers_concat, ih fits.left before, call_records hex new fits.left c,
      call_memory past c, answer_of_injOn inj]

/-- Two paths are saved for, then both are looked for. -/
def twoPaths : List StoreCall :=
  [.save ⟨"a.ts", [], .epoch⟩, .save ⟨"b.ts", [], .epoch⟩, .load "a.ts", .load "b.ts"]

/-- A name for one path, and another for all others. -/
def twoNames (p : String) : String := if p = "a.ts" then "0a" else "0B"

/-- With one name for both, only the second path is known; with two names, both are. -/
theorem records_isMap_twoPaths :
    IsMap (fun _ => "00") twoPaths ((records (fun _ => "00") "insights" .missing).after twoPaths) ∧
      LastSaved (fun _ => "00") twoPaths "b.ts" [] ∧
      (∀ is, ¬ LastSaved (fun _ => "00") twoPaths "a.ts" is) ∧
      (records twoNames "insights" (.present .empty)).answers twoPaths =
        (memory .empty).answers twoPaths := by
  have fits : AllFit twoPaths := by
    intro x hx
    simp only [twoPaths, List.mem_cons, StoreCall.save.injEq, reduceCtorEq, List.not_mem_nil,
      or_false] at hx
    rcases hx with rfl | rfl
    · exact List.forall_mem_nil _
    · exact List.forall_mem_nil _
  have kept : savings twoPaths = [⟨"a.ts", [], .epoch⟩, ⟨"b.ts", [], .epoch⟩] := by
    simp [savings, twoPaths]
  refine ⟨(records_isMap (fun _ => by decide) (.inl rfl) fits).1,
    ⟨[⟨"a.ts", [], .epoch⟩], .epoch, [], kept, List.forall_mem_nil _⟩, fun is last => ?_, ?_⟩
  · have found := lastUnder_bind_eq_some_iff.mpr last
    simp [lastUnder, kept, Saving.insightsFor?] at found
  · have hex : ∀ p, isHexName (twoNames p) = true := by
      intro p
      by_cases a : p = "a.ts"
      · rw [twoNames, if_pos a]
        decide
      · rw [twoNames, if_neg a]
        decide
    have used : ∀ p, (∃ c ∈ twoPaths, c.path? = some p) → p = "a.ts" ∨ p = "b.ts" := by
      simp only [twoPaths, List.mem_cons, List.not_mem_nil, or_false, exists_eq_or_imp,
        exists_eq_left, StoreCall.path?, Option.some.injEq]
      grind
    have different : twoNames "a.ts" ≠ twoNames "b.ts" := by decide
    refine (records_isMap hex (.inr rfl) fits).2 fun p hp q hq same => ?_
    rcases used p hp with rfl | rfl <;> rcases used q hq with rfl | rfl
    · rfl
    · exact absurd same different
    · exact absurd same.symm different
    · rfl

end InsightStore

/-! ## 5. Digests -/

namespace Digest

theorem length_round (state : List UInt32) (constant word : UInt32) :
    (round state constant word).length = state.length := by
  unfold round
  split
  · simp only [List.length_cons, List.length_nil]
  · trivial

theorem length_compress (state block : List UInt32) :
    (compress state block).length = state.length := by
  have stirred (pairs : List (UInt32 × UInt32)) (s : List UInt32) :
      (pairs.foldl (fun s kw => round s kw.1 kw.2) s).length = s.length := by
    induction pairs generalizing s with
    | nil => rfl
    | cons kw pairs ih => rw [List.foldl_cons, ih, length_round]
  unfold compress
  rw [List.length_zipWith, stirred, Nat.min_self]

theorem length_compressAll (n : Nat) (state ws : List UInt32) :
    (compressAll n state ws).length = state.length := by
  induction n generalizing state ws with
  | zero => rfl
  | succ n ih => rw [compressAll, ih, length_compress]

theorem isHex_hexDigits (width n : Nat) :
    (Identity.hexDigits width n).all Identity.isHex = true := by
  have digit : ∀ k : Fin 16, Identity.isHex (Json.hexDigit k) = true := by decide
  induction width generalizing n with
  | zero => rfl
  | succ width ih =>
    have last := digit ⟨n % 16, Nat.mod_lt n (by decide)⟩
    simp only [Identity.hexDigits, List.all_append, ih, Bool.true_and, List.all_cons, List.all_nil,
      Bool.and_true]
    exact last

/-- **A digest is a hexadecimal number**, so records named by it are a map. -/
theorem isHexName_digest (s : String) : isHexName (digest s) = true := by
  have digits (state : List UInt32) :
      (state.flatMap fun w => Identity.hexDigits 8 w.toNat).all Identity.isHex = true := by
    induction state with
    | nil => rfl
    | cons w state ih => rw [List.flatMap_cons, List.all_append, isHex_hexDigits, ih, Bool.and_self]
  have eight := length_compressAll ((words (padded s.toUTF8.toList)).length / 16) initialWords
    (words (padded s.toUTF8.toList))
  unfold digest isHexName
  dsimp only
  rw [String.toList_ofList]
  cases hs : compressAll ((words (padded s.toUTF8.toList)).length / 16) initialWords
      (words (padded s.toUTF8.toList)) with
  | nil =>
    rw [hs] at eight
    cases eight
  | cons w state =>
    have all := digits (w :: state)
    simp only [List.all_eq_true] at all
    simp only [Bool.and_eq_true, List.all_eq_true]
    refine ⟨by simp [Identity.hexDigits], fun c hc => ?_⟩
    rw [all c hc, Bool.true_or]

end Digest

end CodeInsight
