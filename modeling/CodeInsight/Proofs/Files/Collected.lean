import CodeInsight.Ignore.Walk
import CodeInsight.Proofs.Files.Canonical
import CodeInsight.Proofs.Files.Encoding
import Mathlib.Data.List.Sort

/-!
# The source files that are collected

* paths in ascending order, each once, are the same if they have the same members
  (`Sources.ascending_congr`), and **the order is that of their bytes** (`Sources.pairwise_encode`);
* a walker is relied on for two things (`Walker.Sees`): which files it comes to depends on the file
  tree and the directory alone, and it follows no links. The walker that passes over ignored files
  is one of them (`IgnoreLevel.sees_walker`);
* a given path stands for the files it leads to or that are seen below it (`Sources.StandsFor`), and
  collecting puts together the source files that each stands for (`Sources.mem_collectBy`);
* **what is collected is canonical** (`Sources.collect_canonical`): each file once and under its own
  path, whatever the paths it was given under, their order and how they were put together.
-/

namespace CodeInsight

open FileTree (Stands HasFile WellNamed)

/-! ## 1. Walkers -/

/-- Of a directory that a walker walks in a tree it comes to the files that are seen below it,
    whenever it does, and no link leads to them. -/
structure Walker.Sees (walker : Walker) (t : FileTree) (sees : Place → Place → Prop) : Prop where
  file_iff : ∀ n directory place, .file place ∈ walker n t directory ↔ sees directory place
  plain : ∀ directory place, Stands t directory → sees directory place →
    ∃ content, HasFile t place content

namespace IgnoreLevel

variable {t : FileTree} {place directory : Place}

/-- **What is found below a directory is a file**, and above it there are directories only. -/
theorem hasFile_of_mem_filesBelow {depth : Nat} {levels : List IgnoreLevel}
    (stands : Stands t directory) (found : place ∈ filesBelow t depth levels directory) :
    ∃ content, HasFile t place content := by
  fun_induction filesBelow t depth levels directory with
  | case1 => cases found
  | case2 levels directory depth inner ih =>
    obtain ⟨name, -, found⟩ := List.mem_flatMap.mp found
    dsimp only at found
    split at found
    · rename_i content there
      split at found
      · cases found
      · obtain rfl := List.mem_singleton.mp found
        exact ⟨content, by rwa [List.dropLast_concat], there⟩
    · rename_i there
      split at found
      · cases found
      · exact ih _ (stands.down there) found
    · cases found

/-- The files below a directory that no rule ignores. -/
def Seen (t : FileTree) (directory place : Place) : Prop :=
  place ∈ filesBelow t (depth t + 1) (above t directory).1 directory

/-- **The walker that passes over what is ignored** can be relied on. -/
theorem sees_walker (t : FileTree) : walker.Sees t (Seen t) where
  file_iff n directory place := by
    have faultless : WalkEntry.file place ∉ reported (above t directory).2 := by
      unfold reported
      split <;> simp
    unfold walker Seen
    rw [List.mem_append, or_iff_right faultless, List.mem_map]
    exact ⟨fun ⟨_, seen, same⟩ => WalkEntry.file.inj same ▸ seen, fun seen => ⟨_, seen, rfl⟩⟩
  plain _ _ stands seen := hasFile_of_mem_filesBelow stands seen

end IgnoreLevel

namespace Sources

variable {walker other : Walker} {sees : Place → Place → Prop} {n : Nat}
variable {t : FileTree} {here place directory : Place} {node : FileNode} {content : List UInt8}
variable {path p q : String} {paths ps files files' : List String}

/-! ## 2. Ascending order -/

theorem mem_insert : q ∈ insert p ps ↔ q = p ∨ q ∈ ps := by
  fun_induction insert p ps with
  | case1 => simp
  | case2 => simp
  | case3 first rest _ _ ih => rw [List.mem_cons, ih, List.mem_cons, or_left_comm]
  | case4 first rest notLess notMore =>
    obtain rfl : p = first := le_antisymm (not_lt.mp notMore) (not_lt.mp notLess)
    rw [List.mem_cons, ← or_assoc, or_self]

theorem pairwise_insert (h : ps.Pairwise (· < ·)) : (insert p ps).Pairwise (· < ·) := by
  fun_induction insert p ps with
  | case1 => exact List.pairwise_singleton _ _
  | case2 first rest less =>
    refine List.pairwise_cons.mpr ⟨?_, h⟩
    exact List.forall_mem_cons.mpr ⟨less, fun q hq => less.trans (List.rel_of_pairwise_cons h hq)⟩
  | case3 first rest _ more ih =>
    obtain ⟨least, others⟩ := List.pairwise_cons.mp h
    refine List.pairwise_cons.mpr ⟨fun q hq => ?_, ih others⟩
    rcases mem_insert.mp hq with rfl | hq
    · exact more
    · exact least q hq
  | case4 => exact h

@[simp] theorem mem_ascending : q ∈ ascending ps ↔ q ∈ ps := by
  induction ps with
  | nil => rfl
  | cons p ps ih => rw [List.mem_cons, ← ih]; exact mem_insert

theorem pairwise_ascending (ps : List String) : (ascending ps).Pairwise (· < ·) := by
  induction ps with
  | nil => exact .nil
  | cons p ps ih => exact pairwise_insert ih

/-- The same paths in ascending order are the same list. -/
theorem ascending_congr (same : ∀ p, p ∈ ps ↔ p ∈ paths) : ascending ps = ascending paths :=
  (pairwise_ascending ps).eq_of_mem_iff (pairwise_ascending paths) fun p => by
    rw [mem_ascending, mem_ascending, same p]

/-- **The order is that of the bytes.** -/
theorem pairwise_encode (ps : List String) :
    (ascending ps).Pairwise fun p q => FileTree.encode p < FileTree.encode q :=
  (pairwise_ascending ps).imp FileTree.encode_lt

/-! ## 3. Given paths -/

/-- A path stands for the file at a place: it leads to the file, or to a directory below which the
    file is seen. -/
inductive StandsFor (t : FileTree) (here : Place) (sees : Place → Place → Prop) (path : String) :
    Place → Prop where
  | file {place : Place} {content : List UInt8}
      (found : t.find here path = .ok (place, .file content)) : StandsFor t here sees path place
  | below {directory place : Place} (found : t.find here path = .ok (directory, .directory))
      (seen : sees directory place) : StandsFor t here sees path place

/-- The path of a file in a known language that one of several paths stands for. -/
def IsMeant (t : FileTree) (here : Place) (sees : Place → Place → Prop) (paths : List String)
    (p : String) : Prop :=
  Language.isSupported p = true ∧
    ∃ path ∈ paths, ∃ place, StandsFor t here sees path place ∧ p = FileTree.pathOf place

/-- A path is the one of a source file. -/
def IsSource (t : FileTree) (p : String) : Prop :=
  Language.isSupported p = true ∧
    ∃ place content, p = FileTree.pathOf place ∧ HasFile t place content

/-- The source files below a directory are those that are seen there. -/
theorem mem_below (walks : walker.Sees t sees) :
    p ∈ (below walker n t directory).1 ↔ Language.isSupported p = true ∧
      ∃ place, sees directory place ∧ p = FileTree.pathOf place := by
  have seen : p ∈ ((walker n t directory).filterMap WalkEntry.file?).map FileTree.pathOf ↔
      ∃ place, sees directory place ∧ p = FileTree.pathOf place := by
    rw [List.mem_map]
    refine exists_congr fun place => and_congr ?_ eq_comm
    rw [← walks.file_iff n, List.mem_filterMap]
    constructor
    · rintro ⟨entry, there, file⟩
      cases entry with
      | file => cases file; exact there
      | other => cases file
      | fault => cases file
    · exact fun there => ⟨_, there, rfl⟩
  unfold below
  rw [List.mem_filter, and_comm, seen]

/-- What is at a place that a path leads to are the source files that the path stands for. -/
theorem mem_ofNode (walks : walker.Sees t sees) (stands : Stands t here)
    (found : t.find here path = .ok (place, node)) :
    p ∈ (ofNode walker n t place node).1 ↔ Language.isSupported p = true ∧
      ∃ place, StandsFor t here sees path place ∧ p = FileTree.pathOf place := by
  cases node with
  | directory =>
    refine (mem_below walks).trans (and_congr_right fun _ => exists_congr fun q => ?_)
    refine and_congr_left fun _ => ⟨.below found, fun stood => ?_⟩
    cases stood with
    | file found' => cases found.symm.trans found'
    | below found' seen => cases found.symm.trans found'; exact seen
  | file content =>
    have only : (∃ q, StandsFor t here sees path q ∧ p = FileTree.pathOf q) ↔
        p = FileTree.pathOf place := by
      refine ⟨fun ⟨q, stood, same⟩ => ?_, fun same => ⟨place, .file found, same⟩⟩
      cases stood with
      | file found' => cases found.symm.trans found'; exact same
      | below found' => cases found.symm.trans found'
    rw [only]
    unfold ofNode
    dsimp only
    split
    · rename_i supported
      rw [List.mem_singleton]
      exact ⟨fun same => ⟨same ▸ supported, same⟩, fun h => h.2⟩
    · rename_i unknown
      exact ⟨nofun, fun h => absurd (h.2 ▸ h.1) unknown⟩
  | link target => exact absurd rfl ((FileTree.find_ok stands found).2.2 target)

/-- Paths stand for source files exactly if each leads somewhere. -/
theorem exists_ofPaths : (∃ files, (ofPaths walker t here n paths).1 = .ok files) ↔
    ∀ path ∈ paths, ∃ r, t.find here path = .ok r := by
  induction paths generalizing n with
  | nil => exact ⟨fun _ => nofun, fun _ => ⟨[], rfl⟩⟩
  | cons path paths ih =>
    rw [ofPaths, List.forall_mem_cons, ← ih (n := n + 1)]
    cases found : t.find here path with
    | error cause => exact ⟨nofun, fun h => nomatch h.1⟩
    | ok r =>
      dsimp only
      cases rest : (ofPaths walker t here (n + 1) paths).1 with
      | error fault => exact ⟨nofun, fun h => nomatch h.2⟩
      | ok more => exact ⟨fun _ => ⟨⟨r, rfl⟩, more, rfl⟩, fun _ => ⟨_, rfl⟩⟩

/-- What several paths stand for is what each of them does. -/
theorem mem_ofPaths (walks : walker.Sees t sees) (stands : Stands t here)
    (collected : (ofPaths walker t here n paths).1 = .ok files) :
    p ∈ files ↔ IsMeant t here sees paths p := by
  unfold IsMeant
  induction paths generalizing n files with
  | nil =>
    cases collected
    simp
  | cons path paths ih =>
    rw [ofPaths] at collected
    cases found : t.find here path with
    | error cause =>
      rw [found] at collected
      cases collected
    | ok r =>
      rw [found] at collected
      dsimp only at collected
      cases rest : (ofPaths walker t here (n + 1) paths).1 with
      | error fault =>
        rw [rest] at collected
        cases collected
      | ok more =>
        rw [rest] at collected
        cases collected
        rw [List.mem_append, mem_ofNode walks stands found, ih rest, ← and_or_left]
        simp only [List.mem_cons, or_and_right, exists_or, exists_eq_left]

/-- What is collected is what the paths stand for, in ascending order. -/
theorem collectBy_ok : (collectBy walker t here paths).1 = .ok files ↔
    ∃ found, (ofPaths walker t here 0 paths).1 = .ok found ∧ ascending found = files := by
  unfold collectBy
  dsimp only
  cases (ofPaths walker t here 0 paths).1 with
  | error fault => exact ⟨nofun, fun ⟨_, given, _⟩ => nomatch given⟩
  | ok found =>
    rw [Except.map, Except.ok.injEq]
    refine ⟨fun same => ⟨found, rfl, same⟩, ?_⟩
    rintro ⟨_, given, same⟩
    cases given
    exact same

/-- **What is collected**: the source files that the paths stand for. -/
theorem mem_collectBy (walks : walker.Sees t sees) (stands : Stands t here)
    (collected : (collectBy walker t here paths).1 = .ok files) :
    p ∈ files ↔ IsMeant t here sees paths p := by
  obtain ⟨found, given, rfl⟩ := collectBy_ok.mp collected
  rw [mem_ascending]
  exact mem_ofPaths walks stands given

/-- Something is collected exactly if each path leads somewhere. -/
theorem exists_collectBy : (∃ files, (collectBy walker t here paths).1 = .ok files) ↔
    ∀ path ∈ paths, ∃ r, t.find here path = .ok r := by
  refine Iff.trans ?_
    (exists_ofPaths : (∃ files, (ofPaths walker t here 0 paths).1 = .ok files) ↔ _)
  constructor
  · rintro ⟨files, collected⟩
    obtain ⟨found, given, -⟩ := collectBy_ok.mp collected
    exact ⟨found, given⟩
  · rintro ⟨found, given⟩
    exact ⟨_, collectBy_ok.mpr ⟨found, given, rfl⟩⟩

/-- What is collected ascends. -/
theorem pairwise_collectBy (collected : (collectBy walker t here paths).1 = .ok files) :
    files.Pairwise (· < ·) := by
  obtain ⟨found, -, rfl⟩ := collectBy_ok.mp collected
  exact pairwise_ascending found

/-- **Collecting fails** exactly if some path has no canonical path. -/
theorem collectBy_error_iff : (∃ fault, (collectBy walker t here paths).1 = .error fault) ↔
    ∃ path ∈ paths, ∃ cause, t.canonical here path = .error cause := by
  have leads (path : String) : (∃ r, t.find here path = .ok r) ↔
      ¬ ∃ cause, t.canonical here path = .error cause := by
    unfold FileTree.canonical
    cases t.find here path with
    | ok r => exact ⟨fun _ => nofun, fun _ => ⟨r, rfl⟩⟩
    | error cause => exact ⟨nofun, fun none => absurd ⟨cause, rfl⟩ none⟩
  have fails : (∃ fault, (collectBy walker t here paths).1 = .error fault) ↔
      ¬ ∃ files, (collectBy walker t here paths).1 = .ok files := by
    cases (collectBy walker t here paths).1 with
    | ok files => exact ⟨nofun, fun none => absurd ⟨files, rfl⟩ none⟩
    | error fault => exact ⟨fun _ => nofun, fun _ => ⟨fault, rfl⟩⟩
  rw [fails, exists_collectBy]
  simp only [leads, not_forall, not_not, exists_prop]

/-- What a path stands for is there, in directories. -/
theorem StandsFor.hasFile (stood : StandsFor t here sees path place) (walks : walker.Sees t sees)
    (stands : Stands t here) : ∃ content, HasFile t place content := by
  cases stood with
  | @file _ content found =>
    obtain ⟨above, there, -⟩ := FileTree.find_ok stands found
    exact ⟨content, above, there⟩
  | below found seen =>
    obtain ⟨above, there, -⟩ := FileTree.find_ok stands found
    exact walks.plain _ _ (above.of_get? there) seen

theorem IsMeant.isSource (meant : IsMeant t here sees paths p) (walks : walker.Sees t sees)
    (stands : Stands t here) : IsSource t p := by
  obtain ⟨supported, path, -, place, stood, rfl⟩ := meant
  obtain ⟨content, file⟩ := stood.hasFile walks stands
  exact ⟨supported, place, content, rfl, file⟩

/-- What a path stands for depends on its canonical path. -/
theorem StandsFor.congr (named : t.WellNamed) (stands : Stands t here) {c path' : String}
    (h : t.canonical here path = .ok c) (h' : t.canonical here path' = .ok c)
    (stood : StandsFor t here sees path place) : StandsFor t here sees path' place := by
  unfold FileTree.canonical at h h'
  cases found : t.find here path with
  | error cause => rw [found] at h; cases h
  | ok r =>
    cases found' : t.find here path' with
    | error cause => rw [found'] at h'; cases h'
    | ok r' =>
      obtain ⟨place, node⟩ := r
      obtain ⟨place', node'⟩ := r'
      rw [found, Except.map, Except.ok.injEq] at h
      rw [found', Except.map, Except.ok.injEq] at h'
      obtain ⟨-, there, -⟩ := FileTree.find_ok stands found
      obtain ⟨-, there', -⟩ := FileTree.find_ok stands found'
      obtain rfl : place = place' :=
        FileTree.pathOf_injective (named.names there) (named.names there') (h.trans h'.symm)
      obtain rfl : node = node' := Option.some.inj (there.symm.trans there')
      cases stood with
      | file leads => cases found.symm.trans leads; exact .file found'
      | below leads seen => cases found.symm.trans leads; exact .below found' seen

/-- What paths stand for, others stand for that have the same canonical paths. -/
theorem IsMeant.congr (named : t.WellNamed) (stands : Stands t here) {others : List String}
    (lead : ∀ c, (∃ path ∈ paths, t.canonical here path = .ok c) →
      ∃ path ∈ others, t.canonical here path = .ok c)
    (meant : IsMeant t here sees paths p) : IsMeant t here sees others p := by
  obtain ⟨supported, path, hp, place, stood, rfl⟩ := meant
  obtain ⟨c, whither⟩ : ∃ c, t.canonical here path = .ok c := by
    unfold FileTree.canonical
    cases stood with
    | file found | below found => exact ⟨_, by rw [found]; rfl⟩
  obtain ⟨path', hp', same⟩ := lead c ⟨path, hp, whither⟩
  exact ⟨supported, path', hp', place, stood.congr named stands whither same, rfl⟩

theorem isMeant_append {others : List String} : IsMeant t here sees (paths ++ others) p ↔
    IsMeant t here sees paths p ∨ IsMeant t here sees others p := by
  unfold IsMeant
  rw [← and_or_left]
  refine and_congr_right fun _ => ?_
  simp only [List.mem_append, or_and_right, exists_or]

/-- A source file's own path is its canonical form, and is found if it can be followed. -/
theorem IsSource.canonical (named : t.WellNamed) (h : IsSource t p) (here : Place) :
    t.canonicalForm? here p = some p ∧
      (p.utf8ByteSize ≤ FileTree.pathMax → t.canonical here p = .ok p) := by
  obtain ⟨-, place, content, rfl, file⟩ := h
  refine ⟨FileTree.canonicalForm?_pathOf file (named.names file.2), fun short => ?_⟩
  rw [FileTree.canonical, FileTree.find_pathOf file (named.names file.2),
    if_neg (Nat.not_lt.mpr short)]
  rfl

/-- **What is collected is canonical.** In a tree whose names are ones a file system can hold, for
    one who stands in a directory of it, and with any walker that comes to the files that are seen
    and follows no links:
    * nothing is collected exactly if some path has no canonical path;
    * what is collected ascends in the order of the bytes, and it is each file of a known language
      that a path leads to or that is seen below a directory a path leads to, once;
    * each path in it is the one of a source file in directories, no link being on the way, and is
      its own canonical form (which the system also finds, as far as it follows paths of that
      length);
    * paths with the same canonical paths make the same list, in whatever order walks come to the
      files;
    * what paths and others stand for together is what they stand for and what the others do. -/
theorem collect_canonical (named : t.WellNamed) (stands : Stands t here)
    (walks : walker.Sees t sees) (paths : List String) :
    ((∃ fault, (collectBy walker t here paths).1 = .error fault) ↔
      ∃ path ∈ paths, ∃ cause, t.canonical here path = .error cause) ∧
    ∀ files, (collectBy walker t here paths).1 = .ok files →
      files.Pairwise (fun p q => FileTree.encode p < FileTree.encode q) ∧
      (∀ p, p ∈ files ↔ IsMeant t here sees paths p) ∧ (∀ p ∈ files, files.count p = 1) ∧
      (∀ p ∈ files, IsSource t p ∧ t.canonicalForm? here p = some p ∧
        (p.utf8ByteSize ≤ FileTree.pathMax → t.canonical here p = .ok p)) ∧
      ∀ other : Walker, other.Sees t sees →
        ∀ others files', (collectBy other t here others).1 = .ok files' →
          ((∀ c, (∃ path ∈ paths, t.canonical here path = .ok c) ↔
              ∃ path ∈ others, t.canonical here path = .ok c) → files = files') ∧
          ∀ third : Walker, third.Sees t sees →
            ∃ all, (collectBy third t here (paths ++ others)).1 = .ok all ∧
              ∀ p, p ∈ all ↔ p ∈ files ∨ p ∈ files' := by
  refine ⟨collectBy_error_iff, fun files collected => ?_⟩
  have ascends := pairwise_collectBy collected
  have members (p : String) := mem_collectBy (p := p) walks stands collected
  refine ⟨ascends.imp FileTree.encode_lt, members, fun p hp => ?_, fun p hp => ?_,
    fun other walks' others files' collected' => ⟨fun same => ?_, fun third walks₃ => ?_⟩⟩
  · exact List.count_eq_one_of_mem (ascends.imp ne_of_lt) hp
  · have source := ((members p).mp hp).isSource walks stands
    exact ⟨source, source.canonical named here⟩
  · refine ascends.eq_of_mem_iff (pairwise_collectBy collected') fun p => ?_
    rw [members p, mem_collectBy walks' stands collected']
    exact ⟨IsMeant.congr named stands fun c => (same c).mp,
      IsMeant.congr named stands fun c => (same c).mpr⟩
  · have lead := exists_collectBy.mp ⟨files, collected⟩
    have lead' := exists_collectBy.mp ⟨files', collected'⟩
    obtain ⟨all, together⟩ : ∃ all, (collectBy third t here (paths ++ others)).1 = .ok all :=
      exists_collectBy.mpr (List.forall_mem_append.mpr ⟨lead, lead'⟩)
    refine ⟨all, together, fun p => ?_⟩
    rw [mem_collectBy walks₃ stands together, isMeant_append, members p,
      mem_collectBy walks' stands collected']

/-- A directory with a file, and beside it two files and a link to the first of them. -/
def linkedTree : FileTree :=
  ⟨[(["src"], .directory), (["src", "b.rs"], .file []), (["a.py"], .file []),
    (["c.go"], .file []), (["now.rs"], .link "a.py")]⟩

/-- Of a file that is given through a link and with a detour its own path is collected once, with
    the file that is seen in the directory, and another file is added to them. -/
theorem collect_linkedTree :
    linkedTree.WellNamed ∧ Stands linkedTree ["src"] ∧
      IgnoreLevel.walker.Sees linkedTree (IgnoreLevel.Seen linkedTree) ∧
      (collect linkedTree ["src"] ["../now.rs", ".", "../src/../a.py"]).1 =
        .ok ["/a.py", "/src/b.rs"] ∧
      IsMeant linkedTree ["src"] (IgnoreLevel.Seen linkedTree) ["../now.rs", ".", "../src/../a.py"]
        "/src/b.rs" ∧
      linkedTree.canonicalForm? ["src"] "/src/b.rs" = some "/src/b.rs" ∧
      ∃ all, (collect linkedTree ["src"]
          (["../now.rs", ".", "../src/../a.py"] ++ ["../c.go"])).1 = .ok all ∧
        all.Pairwise (fun p q => FileTree.encode p < FileTree.encode q) ∧
        ∀ p, p ∈ all ↔ p ∈ ["/a.py", "/src/b.rs"] ∨ p ∈ ["/c.go"] := by
  have named : linkedTree.WellNamed := by
    unfold WellNamed
    decide
  have stands : Stands linkedTree ["src"] := (FileTree.stands_root linkedTree).down rfl
  have walks := IgnoreLevel.sees_walker linkedTree
  have collected : (collect linkedTree ["src"] ["../now.rs", ".", "../src/../a.py"]).1 =
      .ok ["/a.py", "/src/b.rs"] := by
    decide +kernel
  have other : (collect linkedTree ["src"] ["../c.go"]).1 = .ok ["/c.go"] := by decide +kernel
  obtain ⟨-, members, -, own, together⟩ :=
    (collect_canonical named stands walks _).2 _ collected
  have found : "/src/b.rs" ∈ ["/a.py", "/src/b.rs"] := by decide
  obtain ⟨-, joined⟩ := together _ walks _ _ other
  obtain ⟨all, both, members'⟩ := joined _ walks
  obtain ⟨ascends, -⟩ := (collect_canonical named stands walks _).2 _ both
  exact ⟨named, stands, walks, collected, (members _).mp found, (own _ found).2.1, all, both,
    ascends, members'⟩

end Sources

end CodeInsight
