import CodeInsight.Proofs.Files.Walks
import CodeInsight.Proofs.Text.Lines

/-!
# Paths without links and detours

* one who stands in a directory that is there, as are all above it (`FileTree.Stands`), comes to a
  place of which the same is true, and there is something other than a link (`find_ok`);
* the steps of the path of a place are its names if a file system can hold them (`FileTree.IsName`,
  `walkSteps_pathOf`), so **places with the same path are the same** (`pathOf_injective`);
* a canonical path that is found is the path's canonical form (`canonicalForm?_of_canonical`), and
  **the path of a file leads to that file** with no link on the way, however one stands, and is its
  own canonical form (`canonicalForm?_pathOf`), also where it is too long to be followed at all
  (`find_pathOf`).
-/

namespace CodeInsight

open CodeInsight.Text

namespace FileTree

variable {t : FileTree} {follow : Bool} {here place above : Place} {steps : List WalkStep}
variable {path : String} {node : FileNode} {content : List UInt8}

/-! ## 1. Where one can stand -/

/-- At a place and above it there are directories, and no links. -/
def Stands (t : FileTree) (place : Place) : Prop :=
  ∀ above, above <+: place → t.get? above = some .directory

theorem stands_root (t : FileTree) : Stands t [] := by
  intro above before
  rw [List.prefix_nil.mp before]
  rfl

theorem Stands.up (h : Stands t place) (higher : above <+: place) : Stands t above :=
  fun _ before => h _ (before.trans higher)

theorem Stands.down (h : Stands t place) {name : String}
    (there : t.get? (place ++ [name]) = some .directory) : Stands t (place ++ [name]) := by
  intro above before
  rcases List.prefix_concat_iff.mp before with rfl | higher
  · exact there
  · exact h above higher

/-- Where there is a directory in directories, one can stand. -/
theorem Stands.of_get? (h : Stands t place.dropLast) (there : t.get? place = some .directory) :
    Stands t place := by
  rcases List.eq_nil_or_concat place with rfl | ⟨above, name, rfl⟩
  · exact stands_root t
  · rw [List.concat_eq_append] at h there ⊢
    rw [List.dropLast_concat] at h
    exact h.down there

/-- There is a file at a place, and all that is above it are directories. -/
def HasFile (t : FileTree) (place : Place) (content : List UInt8) : Prop :=
  Stands t place.dropLast ∧ t.get? place = some (.file content)

/-- What a walk comes to is there, and it stands in directories. -/
def Walk.Sound (t : FileTree) : Walk → Prop
  | .found place node =>
    Stands t place.dropLast ∧ t.get? place = some node ∧ ∀ target, node ≠ .link target
  | .link directory _ _ => Stands t directory
  | _ => True

theorem walk_sound (stands : Stands t here) (steps : List WalkStep) :
    (walk t true here steps).Sound t := by
  induction steps generalizing here with
  | nil => exact ⟨stands.up (List.dropLast_prefix _), stands _ List.prefix_rfl, nofun⟩
  | cons step rest ih =>
    cases step with
    | stay => exact ih stands
    | up => exact ih (stands.up (List.dropLast_prefix _))
    | name s =>
      unfold walk
      split
      · trivial
      dsimp only
      split
      · split <;> trivial
      · rename_i there
        exact ih (stands.down there)
      · rename_i there
        split
        · refine ⟨?_, there, nofun⟩
          rwa [List.dropLast_concat]
        · trivial
      · rw [Bool.not_true, Bool.and_false]
        exact stands

theorem walkLinks_sound (stands : Stands t here) (links : Nat) (steps : List WalkStep) :
    (walkLinks t true links here steps).Sound t := by
  fun_induction walkLinks t true links here steps with
  | case1 | case2 => trivial
  | case3 here steps directory target rest linked links full beyond ih =>
    have next : Stands t directory := by
      have sound := walk_sound stands steps
      rwa [linked] at sound
    refine ih ?_
    split
    · exact stands_root t
    · exact next
  | case4 => exact walk_sound stands _

theorem trace_sound (stands : Stands t here) (path : String) :
    (t.trace true here path).Sound t := by
  have start : Stands t (if Path.isAbsolute path then [] else here) := by
    split
    · exact stands_root t
    · exact stands
  have sound := walkLinks_sound start linkMax (walkSteps path)
  unfold trace
  rw [Bool.true_or]
  dsimp only
  split
  · split
    · trivial
    · exact sound
  · exact sound

/-- A path that leads somewhere leads where its names do. -/
theorem trace_of_find (found : t.find here path = .ok (place, node)) :
    t.trace true here path = .found place node := by
  have resolved := resolve_of_find found
  unfold resolve at resolved
  split at resolved
  · cases resolved
  split at resolved
  · cases resolved
  split at resolved
  · cases resolved
  exact resolved

/-- **What a path leads to is there**, in directories that are there, and is no link. -/
theorem find_ok (stands : Stands t here) (found : t.find here path = .ok (place, node)) :
    Stands t place.dropLast ∧ t.get? place = some node ∧ ∀ target, node ≠ .link target := by
  have sound := trace_sound stands path
  rwa [trace_of_find found] at sound

/-- The canonical path that is found is the path's canonical form. -/
theorem canonicalForm?_of_canonical {form : String} (h : t.canonical here path = .ok form) :
    t.canonicalForm? here path = some form := by
  unfold canonical at h
  cases found : t.find here path with
  | error cause =>
    rw [found] at h
    cases h
  | ok r =>
    rw [found] at h
    cases h
    rw [canonicalForm?, trace_of_find found]

/-! ## 2. Names -/

/-- What a file system takes for a name. -/
def IsName (name : String) : Prop :=
  name ≠ "" ∧ name ≠ "." ∧ name ≠ ".." ∧ '/' ∉ name.toList ∧ '\x00' ∉ name.toList ∧
    name.utf8ByteSize ≤ nameMax

instance : DecidablePred IsName := fun _ => inferInstanceAs (Decidable (_ ∧ _))

/-- What is in the tree has names that a file system can hold. -/
def WellNamed (t : FileTree) : Prop := ∀ e ∈ t.nodes, ∀ name ∈ e.1, IsName name

/-- What is at a place is there under names. -/
theorem WellNamed.names (h : t.WellNamed) (there : t.get? place = some node) :
    ∀ name ∈ place, IsName name := by
  unfold get? at there
  split at there
  case isTrue root =>
    rw [root]
    exact nofun
  case isFalse =>
    obtain ⟨before, after, split, -⟩ := List.lookup_eq_some_iff.mp there
    exact h (place, node) (split ▸ List.mem_append_right _ List.mem_cons_self)

theorem walkStep?_name {name : String} (h : IsName name) :
    walkStep? name.toList = some (.name name) := by
  obtain ⟨full, notDot, notUp, -, -, -⟩ := h
  have some : ¬ name.toList.isEmpty = true := by
    rw [List.isEmpty_iff]
    exact fun none => full (String.toList_inj.mp none)
  have other : name.toList ≠ ['.'] := fun dot => notDot (String.toList_inj.mp dot)
  have another : name.toList ≠ ['.', '.'] := fun up => notUp (String.toList_inj.mp up)
  rw [walkStep?, if_neg some, if_neg other, if_neg another, String.ofList_toList]

theorem filterMap_walkStep? (h : ∀ name ∈ place, IsName name) :
    (place.map String.toList).filterMap walkStep? = place.map .name := by
  induction place with
  | nil => rfl
  | cons name place ih =>
    obtain ⟨first, others⟩ := List.forall_mem_cons.mp h
    rw [List.map_cons, List.filterMap_cons_some (walkStep?_name first), ih others]
    rfl

/-! ## 3. Paths of places -/

/-- The path of a place has an empty piece before the first slash, then its names. -/
theorem toList_pathOf (some : place ≠ []) :
    (pathOf place).toList = joinWith '/' ([] :: place.map String.toList) := by
  rw [joinWith_cons_of_ne_nil '/' [] (by simpa using some), pathOf, placeText, String.toList_append,
    String.toList_intercalate]
  rfl

/-- **The steps of a place's path are its names.** -/
theorem walkSteps_pathOf (h : ∀ name ∈ place, IsName name) :
    walkSteps (pathOf place) = place.map .name := by
  rcases eq_or_ne place [] with rfl | some
  · rfl
  · have free : ∀ p ∈ [] :: place.map String.toList, '/' ∉ p := by
      simp only [List.forall_mem_cons, List.forall_mem_map, List.not_mem_nil, not_false_eq_true,
        true_and]
      exact fun name there => (h name there).2.2.2.1
    rw [walkSteps, toList_pathOf some, pieces_joinWith (List.cons_ne_nil _ _) free,
      List.filterMap_cons_none rfl, filterMap_walkStep? h]

/-- **Places with the same path are the same.** -/
theorem pathOf_injective {place place' : Place} (h : ∀ name ∈ place, IsName name)
    (h' : ∀ name ∈ place', IsName name) (same : pathOf place = pathOf place') : place = place' := by
  have steps := congrArg walkSteps same
  rw [walkSteps_pathOf h, walkSteps_pathOf h'] at steps
  exact (List.map_inj_right fun _ _ => WalkStep.name.inj).mp steps

/-- A walk along directories comes to the last of them. -/
theorem walk_directories {names : List String} (h : ∀ name ∈ names, IsName name)
    (stands : Stands t (here ++ names)) :
    walk t follow here (names.map .name ++ steps) = walk t follow (here ++ names) steps := by
  induction names generalizing here with
  | nil => rw [List.append_nil]; rfl
  | cons name names ih =>
    obtain ⟨first, others⟩ := List.forall_mem_cons.mp h
    rw [List.append_cons] at stands ⊢
    have fits : ¬ nameMax < name.utf8ByteSize := Nat.not_lt.mpr first.2.2.2.2.2
    rw [List.map_cons, List.cons_append, walk, if_neg fits]
    dsimp only
    rw [stands _ (List.prefix_append _ _)]
    exact ih others stands

/-- A walk along the names of a file comes to it. -/
theorem HasFile.walk (file : HasFile t place content) (h : ∀ name ∈ place, IsName name) :
    walk t follow [] (place.map .name) = .found place (.file content) := by
  obtain ⟨stands, there⟩ := file
  rcases List.eq_nil_or_concat place with rfl | ⟨directory, name, rfl⟩
  · cases there
  rw [List.concat_eq_append] at *
  obtain ⟨before, last⟩ := List.forall_mem_append.mp h
  rw [List.dropLast_concat] at stands
  have fits : ¬ nameMax < name.utf8ByteSize :=
    Nat.not_lt.mpr (last name List.mem_cons_self).2.2.2.2.2
  rw [List.map_append, walk_directories before stands]
  change FileTree.walk t follow directory [.name name] = _
  rw [FileTree.walk, if_neg fits]
  dsimp only
  rw [there]
  rfl

theorem isAbsolute_pathOf (place : Place) : Path.isAbsolute (pathOf place) = true := by
  rw [Path.isAbsolute, pathOf, String.toList_append]
  rfl

theorem nul_not_mem_pathOf (h : ∀ name ∈ place, IsName name) : '\x00' ∉ (pathOf place).toList := by
  rcases eq_or_ne place [] with rfl | some
  · decide
  intro nul
  rw [toList_pathOf some] at nul
  have kept := List.mem_filter.mpr ⟨nul, beq_self_eq_true '\x00'⟩
  rw [filter_joinWith rfl] at kept
  obtain ⟨piece, there, inside⟩ := List.mem_flatten.mp (List.mem_filter.mp kept).1
  rcases List.mem_cons.mp there with rfl | named
  · cases inside
  · obtain ⟨name, member, rfl⟩ := List.mem_map.mp named
    exact (h name member).2.2.2.2.1 inside

/-- The path of what is below the root ends with its name. -/
theorem endsInSlash_pathOf (h : ∀ name ∈ place, IsName name) (some : place ≠ []) :
    endsInSlash (pathOf place) = false := by
  obtain ⟨directory, name, rfl⟩ := (List.eq_nil_or_concat place).resolve_left some
  rw [List.concat_eq_append] at h some ⊢
  obtain ⟨full, -, -, plain, -, -⟩ := h name List.mem_concat_self
  have letters : name.toList ≠ [] := fun none => full (String.toList_inj.mp none)
  have text := toList_pathOf some
  rw [List.map_append, ← List.cons_append, List.map_singleton,
    joinWith_append '/' (List.cons_ne_nil _ _) (List.cons_ne_nil _ _), joinWith_singleton] at text
  rw [endsInSlash, text, beq_eq_false_iff_ne, List.getLast?_append,
    List.getLast?_cons_of_ne_nil letters, List.getLast?_eq_some_getLast letters, Option.some_or]
  exact fun last => plain (Option.some.inj last ▸ List.getLast_mem letters)

/-- The names of a file's path lead to the file. -/
theorem trace_pathOf (file : HasFile t place content) (h : ∀ name ∈ place, IsName name) :
    t.trace true here (pathOf place) = .found place (.file content) := by
  have below : place ≠ [] := by
    rintro rfl
    cases file.2
  have reached : walkLinks t true linkMax [] (walkSteps (pathOf place)) =
      .found place (.file content) := by
    rw [walkSteps_pathOf h, walkLinks_of_not] <;> rw [file.walk h]
    exact nofun
  unfold trace
  rw [if_pos (isAbsolute_pathOf place), Bool.true_or, reached, endsInSlash_pathOf h below]
  rfl

/-- **The path of a file is its own canonical form.** -/
theorem canonicalForm?_pathOf (file : HasFile t place content) (h : ∀ name ∈ place, IsName name) :
    t.canonicalForm? here (pathOf place) = some (pathOf place) := by
  rw [canonicalForm?, trace_pathOf file h]

/-- **The path of a file leads to it**, unless it is longer than any path can be. -/
theorem find_pathOf (file : HasFile t place content) (h : ∀ name ∈ place, IsName name) :
    t.find here (pathOf place) =
      if pathMax < (pathOf place).utf8ByteSize then .error .nameTooLong
      else .ok (place, .file content) := by
  have full : ¬ (pathOf place).isEmpty = true := by
    rw [String.isEmpty_iff]
    intro none
    have absolute := isAbsolute_pathOf place
    rw [none] at absolute
    cases absolute
  unfold find resolve
  rw [if_neg (List.contains_iff_mem.not.mpr (nul_not_mem_pathOf h)), if_neg full]
  by_cases long : pathMax < (pathOf place).utf8ByteSize
  · rw [if_pos long, if_pos long]
  · rw [if_neg long, if_neg long, trace_pathOf file h]

end FileTree

end CodeInsight
