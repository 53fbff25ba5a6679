import CodeInsight.Proofs.Files.Walks
import CodeInsight.Proofs.Store.Histories
import CodeInsight.Store.DataDirectory

/-!
# Records in a file tree

* the directories of a data directory that was made are there, if nobody else has put anything in
  their places (`DataDirectory.InOrder`, `DataDirectory.isThere_of_make`), and making it again
  changes nothing (`DataDirectory.make_of_isThere`);
* a directory of records is read off a tree name by name (`FileTree.get?_of_recordsAt`), and
  putting it back places its files and leaves where all directories are
  (`FileTree.keeps_putEntries`): **a record is found where it was put** (`contentAt_putRecords`);
* whatever saves have made of a directory of records (`RecordDirectory.Stocked`), **the record of
  the last one under a name is whole** (`Stocked.contentAt`).
-/

namespace CodeInsight

open FileTree (Keeps Grows)

/-! ## 1. The directories -/

namespace DataDirectory

variable {d : DataDirectory} {here : Place} {t t' : FileTree} {paths : List String}

/-- The paths of the directories. -/
def directories (d : DataDirectory) : List String := [d.root, d.insights, d.logs]

/-- The directories are there. -/
def IsThere (d : DataDirectory) (here : Place) (t : FileTree) : Prop :=
  ∀ path ∈ d.directories, path = "" ∨ t.reachesDirectory here path = true

/-- Nobody else has put anything into a data directory: no file is in the place of one of its
    directories, and no link is where the records are. -/
structure InOrder (d : DataDirectory) (here : Place) (t : FileTree) : Prop where
  directories : ∀ path ∈ d.directories,
    t.reaches here path = true → t.reachesDirectory here path = true
  records : ∀ place, t.find here d.insights = .ok (place, .directory) →
    ∀ name target, t.get? (place ++ [name]) ≠ some (.link target)

/-- Where each of some paths leads to something, nothing is made. -/
theorem ensure_of_reaches (there : ∀ path ∈ paths, path = "" ∨ t.reaches here path = true) :
    ensure here paths t = (.ok (), t) := by
  induction paths with
  | nil => rfl
  | cons path rest ih =>
    obtain ⟨first, others⟩ := List.forall_mem_cons.mp there
    unfold ensure
    split
    · exact ih others
    · rename_i missing
      obtain rfl : path = "" := first.resolve_right missing
      rw [FileTree.makeDirectories_empty]
      exact ih others

/-- What was made is added to the tree, and each path then leads to something. -/
theorem ensure_ok (made : ensure here paths t = (.ok (), t')) :
    Grows t t' ∧ ∀ path ∈ paths, path = "" ∨ t'.reaches here path = true := by
  induction paths generalizing t with
  | nil =>
    cases made
    exact ⟨.refl _, nofun⟩
  | cons path rest ih =>
    unfold ensure at made
    split at made
    · rename_i there
      obtain ⟨grows, others⟩ := ih made
      exact ⟨grows, List.forall_mem_cons.mpr ⟨.inr (grows.reaches there), others⟩⟩
    · split at made
      · rename_i t₁ done
        obtain ⟨grows, others⟩ := ih made
        have before := FileTree.grows_makeDirectories t here path
        have first : path = "" ∨ t₁.reaches here path = true := by
          by_cases empty : path = ""
          · exact .inl empty
          · have succeeds : (t.makeDirectories here path).1 = .ok () := by rw [done]
            have there := FileTree.reachesDirectory_of_makeDirectories empty succeeds
            rw [done] at there
            exact .inr (FileTree.reaches_of_directory there)
        rw [done] at before
        exact ⟨before.trans grows,
          List.forall_mem_cons.mpr ⟨first.imp_right grows.reaches, others⟩⟩
      · cases made

/-- **The directories of a data directory that was made are there.** -/
theorem isThere_of_make {t₀ : FileTree} (made : d.make here t₀ = (.ok (), t))
    (order : d.InOrder here t) : d.IsThere here t := fun path hp =>
  ((ensure_ok made).2 path hp).imp_right (order.directories path hp)

/-- **A data directory that is there is not changed** by making it. -/
theorem make_of_isThere (there : d.IsThere here t) : d.make here t = (.ok (), t) :=
  ensure_of_reaches fun path hp => (there path hp).imp_right FileTree.reaches_of_directory

theorem IsThere.keeps (there : d.IsThere here t) (kept : Keeps FileNode.isWay t t') :
    d.IsThere here t' :=
  fun path hp => (there path hp).imp_right kept.reachesDirectory

/-- The directory of records has a path. -/
theorem insights_ne_empty (d : DataDirectory) : d.insights ≠ "" := by
  intro empty
  have none := congrArg String.toList empty
  unfold insights Path.join at none
  split at none
  · cases none
  · split at none
    · cases none
    · split at none <;> simp at none

theorem IsThere.insights (there : d.IsThere here t) :
    ∃ place, t.find here d.insights = .ok (place, .directory) :=
  FileTree.reachesDirectory_iff.mp
    ((there d.insights (by simp [directories])).resolve_left d.insights_ne_empty)

end DataDirectory

/-! ## 2. Reading records off a tree -/

namespace Table

variable {α : Type} {t : Table α}

theorem nodup_erase (h : t.paths.Nodup) (path : String) : (t.erase path).paths.Nodup := by
  rw [paths_erase]
  exact h.filter _

theorem nodup_set (h : t.paths.Nodup) (path : String) (value : α) :
    (t.set path value).paths.Nodup := by
  rw [paths_set]
  exact List.nodup_cons.mpr ⟨by simp, h.filter _⟩

theorem mem_of_get? {path : String} {value : α} (h : t.get? path = some value) :
    (path, value) ∈ t.entries := by
  obtain ⟨l₁, l₂, split, -⟩ := List.lookup_eq_some_iff.mp h
  rw [split]
  exact List.mem_append_right _ List.mem_cons_self

/-- The table with the value that a function has for a path, if it has one. -/
def setFrom (f : String → Option α) (t : Table α) (path : String) : Table α :=
  match f path with
  | some value => t.set path value
  | none => t

theorem get?_foldl_setFrom (f : String → Option α) (names : List String) (t : Table α)
    (name : String) :
    (names.foldl (setFrom f) t).get? name =
      if name ∈ names then (f name).or (t.get? name) else t.get? name := by
  induction names generalizing t with
  | nil => rfl
  | cons first rest ih =>
    rw [List.foldl_cons, ih]
    by_cases same : name = first
    · subst same
      cases value : f name <;> simp [setFrom, value]
    · have kept : (setFrom f t first).get? name = t.get? name := by
        unfold setFrom
        split
        · exact get?_set_ne _ _ same
        · rfl
      simp [kept, same]

theorem nodup_foldl_setFrom (f : String → Option α) (names : List String)
    (h : t.paths.Nodup) : (names.foldl (setFrom f) t).paths.Nodup := by
  induction names generalizing t with
  | nil => exact h
  | cons first rest ih =>
    refine ih ?_
    unfold setFrom
    split
    · exact nodup_set h _ _
    · exact h

end Table

namespace FileTree

variable {t : FileTree} {here place : Place} {path name : String} {entries : Table RecordEntry}

/-- What is in a directory has a name there. -/
theorem mem_names_of_get? {node : FileNode} (there : t.get? (place ++ [name]) = some node) :
    name ∈ t.names place := by
  have listed : t.nodes.lookup (place ++ [name]) = some node := by
    simpa [get?] using there
  obtain ⟨l₁, l₂, split, -⟩ := List.lookup_eq_some_iff.mp listed
  have mem : (place ++ [name], node) ∈ t.nodes := by simp [split]
  unfold names
  rw [List.mem_mergeSort]
  exact List.mem_filterMap.mpr ⟨_, mem, by simp [nameIn?]⟩

/-- **The entries of a directory of records** are what the tree has under its names. -/
theorem get?_of_recordsAt (found : t.find here path = .ok (place, .directory)) :
    ∃ entries, t.recordsAt here path = .present entries ∧ entries.paths.Nodup ∧
      ∀ name, entries.get? name = (t.get? (place ++ [name])).bind recordEntry? := by
  let entryOf (name : String) := (t.get? (place ++ [name])).bind recordEntry?
  refine ⟨(t.names place).foldl (Table.setFrom entryOf) .empty, ?_, ?_, fun name => ?_⟩
  · unfold recordsAt
    rw [found]
    refine congrArg RecordDirectory.present (congrFun (congrFun (congrArg List.foldl ?_) _) _)
    funext es name
    unfold Table.setFrom
    dsimp only [entryOf]
    cases (t.get? (place ++ [name])).bind recordEntry? <;> rfl
  · exact Table.nodup_foldl_setFrom _ _ List.nodup_nil
  · rw [Table.get?_foldl_setFrom]
    split
    · simp [entryOf]
    · rename_i unnamed
      cases there : t.get? (place ++ [name]) with
      | none => rfl
      | some node => exact absurd (mem_names_of_get? there) unnamed

/-! ## 3. Putting records back -/

/-- What an entry of a directory of records is in a tree. -/
def entryNode : RecordEntry → FileNode
  | .file content => .file content
  | .directory => .directory

/-- The tree with an entry of a directory. -/
def putEntry (place : Place) (t : FileTree) (e : String × RecordEntry) : FileTree :=
  t.put (place ++ [e.1]) (entryNode e.2)

theorem get?_foldl_putEntry_ne {p : Place} (l : List (String × RecordEntry)) (t : FileTree)
    (other : ∀ e ∈ l, p ≠ place ++ [e.1]) : (l.foldl (putEntry place) t).get? p = t.get? p := by
  induction l generalizing t with
  | nil => rfl
  | cons e l ih =>
    obtain ⟨first, rest⟩ := List.forall_mem_cons.mp other
    rw [List.foldl_cons, ih _ rest, putEntry, get?_put_ne _ _ first]

theorem get?_foldl_putEntry (l : List (String × RecordEntry)) (t : FileTree)
    (distinct : (l.map (·.1)).Nodup) {entry : RecordEntry} (there : (name, entry) ∈ l) :
    (l.foldl (putEntry place) t).get? (place ++ [name]) = some (entryNode entry) := by
  induction l generalizing t with
  | nil => cases there
  | cons e l ih =>
    obtain ⟨once, distinct⟩ := List.nodup_cons.mp distinct
    rw [List.foldl_cons]
    rcases List.mem_cons.mp there with rfl | there
    · have apart : ∀ e ∈ l, place ++ [name] ≠ place ++ [e.1] := by
        intro e he same
        have same : e.1 = name := by simpa using same.symm
        exact once (List.mem_map.mpr ⟨e, he, same⟩)
      rw [get?_foldl_putEntry_ne l _ apart, putEntry, get?_put_self _ _ (by simp)]
    · exact ih _ distinct there

/-- Whether something stays where entries are put: all but the files that are none of them. -/
def staysAmong (place : Place) (entries : Table RecordEntry) (e : Place × FileNode) : Bool :=
  match nameIn? place e.1, e.2 with
  | some name, .file _ => entries.contains name
  | _, _ => true

theorem staysAmong_of_isWay {p : Place} {n : FileNode} (way : n.isWay = true) :
    staysAmong place entries (p, n) = true := by
  unfold staysAmong
  split
  · rename_i file
    rw [show n = _ from file] at way
    cases way
  · rfl

/-- The tree in which only that is left in a directory which stays among entries. -/
def keepEntries (t : FileTree) (place : Place) (entries : Table RecordEntry) : FileTree :=
  ⟨t.nodes.filter (staysAmong place entries)⟩

theorem putEntries_eq (t : FileTree) (place : Place) (entries : Table RecordEntry) :
    t.putEntries place entries =
      entries.entries.foldl (putEntry place) (t.keepEntries place entries) := by
  unfold putEntries
  refine congrFun (congrFun (congrArg List.foldl ?_) _) _
  funext t e
  unfold putEntry
  cases e.2 <;> rfl

theorem keeps_keepEntries (t : FileTree) (place : Place) (entries : Table RecordEntry) :
    Keeps FileNode.isWay t (t.keepEntries place entries) := by
  intro p n way there
  by_cases root : p = []
  · simpa [get?, root] using there
  · have listed : t.nodes.lookup p = some n := by simpa [get?, root] using there
    obtain ⟨l₁, l₂, split, before⟩ := List.lookup_eq_some_iff.mp listed
    have found : (t.keepEntries place entries).nodes.lookup p = some n := by
      refine List.lookup_eq_some_iff.mpr ⟨l₁.filter (staysAmong place entries),
        l₂.filter (staysAmong place entries), ?_, fun q hq => ?_⟩
      · rw [keepEntries, split, List.filter_append,
          List.filter_cons_of_pos (staysAmong_of_isWay way)]
      · exact before q (List.mem_filter.mp hq).1
    simpa [get?, root] using found

/-- **An entry is in its place** after it was put there. -/
theorem get?_putEntries (t : FileTree) (distinct : entries.paths.Nodup) {entry : RecordEntry}
    (there : entries.get? name = some entry) :
    (t.putEntries place entries).get? (place ++ [name]) = some (entryNode entry) := by
  rw [putEntries_eq]
  exact get?_foldl_putEntry _ _ distinct (Table.mem_of_get? there)

/-- **All directories and links stay** when entries are put into a directory without links, if what
    was a directory there still is one. -/
theorem keeps_putEntries (noLink : ∀ name target, t.get? (place ++ [name]) ≠ some (.link target))
    (distinct : entries.paths.Nodup)
    (same : ∀ name entry, t.get? (place ++ [name]) = some .directory →
      entries.get? name = some entry → entry = .directory) :
    Keeps FileNode.isWay t (t.putEntries place entries) := by
  intro p n way there
  by_cases put : ∃ e ∈ entries.entries, p = place ++ [e.1]
  · obtain ⟨e, he, rfl⟩ := put
    have known : e.1 ∈ entries.paths := List.mem_map_of_mem he
    obtain ⟨entry, got⟩ := Option.ne_none_iff_exists'.mp fun none =>
      Table.get?_eq_none_iff.mp none known
    rw [get?_putEntries t distinct got]
    cases n with
    | file => cases way
    | link target => exact absurd there (noLink _ _)
    | directory => rw [same _ _ there got]; rfl
  · have other : ∀ e ∈ entries.entries, p ≠ place ++ [e.1] := fun e he eq => put ⟨e, he, eq⟩
    rw [putEntries_eq, get?_foldl_putEntry_ne _ _ other]
    exact t.keeps_keepEntries place entries p n way there

theorem putRecords_of_find (found : t.find here path = .ok (place, .directory)) :
    t.putRecords here path (.present entries) = t.putEntries place entries := by
  unfold putRecords
  rw [makeDirectories_of_directory (reachesDirectory_iff.mpr ⟨place, found⟩)]
  dsimp only
  rw [found]

/-- **A record is found where it was put.** -/
theorem contentAt_putRecords {content : List UInt8} {d : RecordDirectory}
    (found : t.find here path = .ok (place, .directory))
    (after : (t.putRecords here path d).find here path = .ok (place, .directory))
    (distinct : ∀ entries, d = .present entries → entries.paths.Nodup)
    (there : d.contentAt name = .ok (some content)) :
    ((t.putRecords here path d).recordsAt here path).contentAt name = .ok (some content) := by
  cases d with
  | missing => cases there
  | blocked => cases there
  | present entries =>
    have file : entries.get? name = some (.file content) := by
      simp only [RecordDirectory.contentAt] at there
      split at there
      · cases there
      · cases there
      · rename_i file
        cases there
        exact file
    obtain ⟨entries', read, -, same⟩ := get?_of_recordsAt after
    rw [read]
    simp only [RecordDirectory.contentAt]
    rw [same, putRecords_of_find found, get?_putEntries t (distinct entries rfl) file]
    rfl

end FileTree

/-! ## 4. What saves make of a directory -/

namespace RecordDirectory

variable {naming : String → String} {path name : String} {insights : List Insight} {time : Instant}
variable {entries : Table RecordEntry} {d d' : RecordDirectory} {xs : List Saving}

/-- A directory of records has each name once, and under those under which entries have directories
    it has directories too. -/
def KeepsDirectories (entries : Table RecordEntry) (d : RecordDirectory) : Prop :=
  ∃ entries', d = .present entries' ∧ entries'.paths.Nodup ∧
    ∀ name, entries.get? name = some .directory → entries'.get? name = some .directory

theorem KeepsDirectories.withFile (h : KeepsDirectories entries d) {content : List UInt8}
    (written : d.withFile name content = .ok d') : KeepsDirectories entries d' := by
  obtain ⟨entries', rfl, distinct, kept⟩ := h
  simp only [RecordDirectory.withFile] at written
  split at written
  · cases written
  · rename_i free
    cases written
    refine ⟨_, rfl, Table.nodup_set distinct _ _, fun other h => ?_⟩
    have apart : other ≠ name := fun same => free (same ▸ kept other h)
    rw [Table.get?_set_ne _ _ apart, kept other h]

/-- A file that is given another name takes the place of no directory. -/
theorem KeepsDirectories.rename (h : KeepsDirectories entries d) {old new : String}
    {content : List UInt8} (file : d.contentAt old = .ok (some content))
    (renamed : d.rename old new = .ok d') : KeepsDirectories entries d' := by
  obtain ⟨entries', rfl, distinct, kept⟩ := h
  simp only [RecordDirectory.contentAt] at file
  split at file
  · cases file
  · cases file
  · rename_i content' there
    simp only [RecordDirectory.rename, there] at renamed
    split at renamed
    · cases renamed
    · cases renamed
    · cases renamed
    · rename_i same free _
      cases same
      cases renamed
      refine ⟨_, rfl, Table.nodup_set (Table.nodup_erase distinct _) _ _, fun other h => ?_⟩
      have here := kept other h
      have apart : other ≠ old := by
        rintro rfl
        rw [there] at here
        cases here
      have untaken : other ≠ new := by
        rintro rfl
        exact free _ here rfl
      rw [Table.get?_set_ne _ _ untaken, Table.get?_erase_ne _ apart, here]

/-- A save takes the place of no directory. -/
theorem KeepsDirectories.save (h : KeepsDirectories entries d) (naming : String → String)
    (path : String) (insights : List Insight) (time : Instant) :
    KeepsDirectories entries (d.save naming path insights time).2 := by
  have room {d₁ : RecordDirectory} (made : d.makeRoom = .ok d₁) : d₁ = d := by
    obtain ⟨entries', rfl, -⟩ := h
    cases made
    rfl
  unfold RecordDirectory.save
  split
  · exact h
  · rename_i d₁ made
    obtain rfl := room made
    split
    · exact h
    · rename_i d₂ drafted
      have draft := h.withFile drafted
      split
      · exact draft
      · rename_i d₃ published
        exact draft.rename (contentAt_of_withFile drafted) published

/-- **What saves have made of a directory** with some entries, and those that succeeded, the last
    one first. -/
inductive Stocked (naming : String → String) (entries : Table RecordEntry) :
    List Saving → RecordDirectory → Prop where
  | start : Stocked naming entries [] (.present entries)
  | saved {xs : List Saving} {d d' : RecordDirectory} {x : Saving}
      (h : Stocked naming entries xs d)
      (done : d.save naming x.path x.insights x.time = (.ok (), d')) :
      Stocked naming entries (x :: xs) d'
  | failed {xs : List Saving} {d d' : RecordDirectory} {x : Saving} {cause : StoreFault}
      (h : Stocked naming entries xs d)
      (broke : d.save naming x.path x.insights x.time = (.error cause, d')) :
      Stocked naming entries xs d'

theorem Stocked.keepsDirectories (h : Stocked naming entries xs d)
    (distinct : entries.paths.Nodup) : KeepsDirectories entries d := by
  induction h with
  | start => exact ⟨entries, rfl, distinct, fun _ h => h⟩
  | @saved xs d d' x _ done ih =>
    have kept := ih.save naming x.path x.insights x.time
    rwa [done] at kept
  | @failed xs d d' x cause _ broke ih =>
    have kept := ih.save naming x.path x.insights x.time
    rwa [broke] at kept

/-- **The record of the last save under a name is whole.** -/
theorem Stocked.contentAt {later earlier : List Saving} {x : Saving}
    (h : Stocked naming entries xs d) (saved : xs = later ++ x :: earlier)
    (apart : ∀ y ∈ later, naming x.path ≠ naming y.path) :
    d.contentAt (recordName naming x.path) = .ok (some (FileTree.encode x.record.text)) := by
  induction h generalizing later with
  | start => cases later <;> cases saved
  | @saved ys d d' y _ done ih =>
    cases later with
    | nil =>
      cases saved
      exact contentAt_of_saved done
    | cons z later =>
      cases saved
      obtain ⟨other, apart⟩ := List.forall_mem_cons.mp apart
      have kept : (d.save naming y.path y.insights y.time).2.contentAt (recordName naming x.path) =
          d.contentAt (recordName naming x.path) := contentAt_save (.inl other)
      rw [done] at kept
      exact kept.trans (ih rfl apart)
  | @failed ys d d' y cause _ broke ih =>
    have unsaved : (d.save naming y.path y.insights y.time).1 ≠ .ok () := by
      rw [broke]
      exact nofun
    have kept := contentAt_save (p := x.path) (.inr unsaved)
    rw [broke] at kept
    exact kept.trans (ih saved apart)

end RecordDirectory

end CodeInsight
