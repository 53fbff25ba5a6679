import CodeInsight.Files.Access

/-!
# Where paths lead when the tree changes

* a tree keeps what another has of a kind (`FileTree.Keeps`); as long as directories and links are
  kept, **a path leads where it led before** (`Keeps.find`);
* whether a link at the end is passed makes a difference only there (`walk_of_walk_true`): so a
  directory cannot be made where a path leads to something (`makeDirectory_of_find`), and **where a
  directory is there already, nothing is made** (`makeDirectories_of_directory`);
* making directories adds to the tree (`grows_makeDirectories`), and **a path for which directories
  were made leads to one** (`reachesDirectory_of_makeDirectories`).
-/

namespace CodeInsight

/-- Whether a walk may pass: a directory or a link. -/
def FileNode.isWay : FileNode → Bool
  | file _ => false
  | _ => true

namespace FileTree

variable {t t' t₁ : FileTree} {follow : Bool} {here place : Place} {steps : List WalkStep}
variable {path : String} {node : FileNode}

/-- What one tree has of a kind, the other has in the same place. -/
def Keeps (kind : FileNode → Bool) (t t' : FileTree) : Prop :=
  ∀ place node, kind node = true → t.get? place = some node → t'.get? place = some node

/-- What one tree has, the other has. -/
abbrev Grows (t t' : FileTree) : Prop := Keeps (fun _ => true) t t'

theorem Grows.refl (t : FileTree) : Grows t t := fun _ _ _ h => h

theorem Grows.trans (h : Grows t t₁) (h' : Grows t₁ t') : Grows t t' :=
  fun place node _ there => h' place node rfl (h place node rfl there)

/-- Something is put where nothing is. -/
theorem grows_put (free : t.get? place = none) (node : FileNode) : Grows t (t.put place node) := by
  intro p n _ there
  have other : p ≠ place := by
    rintro rfl
    rw [free] at there
    cases there
  rw [get?_put_ne t node other, there]

/-! ## 1. Walks -/

/-- A walk that comes to no link is all. -/
theorem walkLinks_of_not {links : Nat} (ended : ∀ d l r, walk t follow here steps ≠ .link d l r) :
    walkLinks t follow links here steps = walk t follow here steps := by
  unfold walkLinks
  split
  · rename_i linked
    exact absurd linked (ended _ _ _)
  · rfl

/-- A walk goes on where a link points to. -/
theorem walkLinks_of_link {links : Nat} {directory : Place} {target : String}
    {rest : List WalkStep} (linked : walk t follow here steps = .link directory target rest)
    (full : ¬ target.isEmpty = true) :
    walkLinks t follow (links + 1) here steps =
      walkLinks t follow links (if Path.isAbsolute target then [] else directory)
        (walkSteps target ++ (if endsInSlash target then [.stay] else []) ++ rest) := by
  rw [walkLinks, linked]
  exact if_neg full

/-- Whether a walk ends at something of a kind, or before a link. -/
def Walk.endsAt (kind : FileNode → Bool) : Walk → Bool
  | .found _ node => kind node
  | .link .. => true
  | _ => false

section Keeps

variable {kind : FileNode → Bool}

/-- **A walk goes as before** where its end and all ways are kept. -/
theorem Keeps.walk (h : Keeps kind t t') (ways : ∀ n, n.isWay = true → kind n = true)
    (ends : (walk t follow here steps).endsAt kind = true) :
    walk t' follow here steps = walk t follow here steps := by
  induction steps generalizing here with
  | nil => rfl
  | cons step rest ih =>
    cases step with
    | stay | up => exact ih ends
    | name s =>
      unfold FileTree.walk at ends ⊢
      split
      · rfl
      rename_i fits
      rw [if_neg fits] at ends
      dsimp only at ends ⊢
      cases there : t.get? (here ++ [s]) with
      | none =>
        rw [there] at ends
        dsimp only at ends
        split at ends <;> cases ends
      | some n =>
        rw [there] at ends
        have kept (k : kind n = true) : t'.get? (here ++ [s]) = some n := h _ n k there
        cases n with
        | directory =>
          rw [kept (ways _ rfl)]
          exact ih ends
        | link target => rw [kept (ways _ rfl)]
        | file content =>
          dsimp only at ends
          split at ends
          · rw [kept ends]
          · cases ends

theorem Keeps.walkLinks (h : Keeps kind t t') (ways : ∀ n, n.isWay = true → kind n = true)
    {links : Nat} (ends : (walkLinks t follow links here steps).endsAt kind = true) :
    walkLinks t' follow links here steps = walkLinks t follow links here steps := by
  fun_induction FileTree.walkLinks t follow links here steps with
  | case1 | case2 => cases ends
  | case3 here steps directory target rest linked links full beyond ih =>
    have same : t'.walk follow here steps = t.walk follow here steps :=
      h.walk ways (by rw [linked]; rfl)
    rw [walkLinks_of_link (same.trans linked) full]
    exact ih ends
  | case4 links here steps ended =>
    have same := h.walk ways ends
    rw [walkLinks_of_not (by rw [same]; exact ended), same]

theorem Keeps.resolve (h : Keeps kind t t') (ways : ∀ n, n.isWay = true → kind n = true)
    (ends : (t.resolve follow here path).endsAt kind = true) :
    t'.resolve follow here path = t.resolve follow here path := by
  unfold FileTree.resolve FileTree.trace at ends ⊢
  split
  · rfl
  split
  · rfl
  split
  · rfl
  rename_i plain full short
  rw [if_neg plain, if_neg full, if_neg short] at ends
  dsimp only at ends ⊢
  rw [h.walkLinks ways]
  split at ends
  · split at ends
    · cases ends
    · exact ends
  · exact ends

/-- **A path leads where it led before**, as long as what it leads to and all directories and links
    are kept. -/
theorem Keeps.find (h : Keeps kind t t') (ways : ∀ n, n.isWay = true → kind n = true)
    (kept : kind node = true) (found : t.find here path = .ok (place, node)) :
    t'.find here path = .ok (place, node) := by
  unfold FileTree.find at found ⊢
  split at found
  · rename_i there
    cases found
    rw [h.resolve ways (by rw [there]; exact kept), there]
  all_goals cases found

end Keeps

theorem reachesDirectory_iff :
    t.reachesDirectory here path = true ↔ ∃ place, t.find here path = .ok (place, .directory) := by
  unfold reachesDirectory
  split
  · rename_i place found
    simp [found]
  · rename_i other
    constructor
    · nofun
    · rintro ⟨place, found⟩
      exact absurd found (other place)

theorem reaches_iff : t.reaches here path = true ↔ ∃ r, t.find here path = .ok r := by
  unfold reaches
  cases t.find here path with
  | ok r => exact ⟨fun _ => ⟨r, rfl⟩, fun _ => rfl⟩
  | error cause => exact ⟨nofun, fun ⟨r, h⟩ => by cases h⟩

/-- A path leads to a directory as long as all directories and links are kept. -/
theorem Keeps.reachesDirectory (h : Keeps FileNode.isWay t t')
    (there : t.reachesDirectory here path = true) : t'.reachesDirectory here path = true := by
  obtain ⟨place, found⟩ := reachesDirectory_iff.mp there
  exact reachesDirectory_iff.mpr ⟨place, h.find (fun _ way => way) rfl found⟩

theorem Grows.reaches (h : Grows t t') (there : t.reaches here path = true) :
    t'.reaches here path = true := by
  obtain ⟨⟨place, node⟩, found⟩ := reaches_iff.mp there
  exact reaches_iff.mpr ⟨_, h.find (fun _ _ => rfl) rfl found⟩

theorem reaches_of_directory (there : t.reachesDirectory here path = true) :
    t.reaches here path = true := by
  obtain ⟨place, found⟩ := reachesDirectory_iff.mp there
  exact reaches_iff.mpr ⟨_, found⟩

/-! ## 2. Links at the end -/

/-- A walk that passes a link at the end goes like one that does not, up to that link. -/
theorem walk_of_walk_true (t : FileTree) (here : Place) (steps : List WalkStep) :
    walk t false here steps = walk t true here steps ∨
      ∃ place target, walk t false here steps = .found place (.link target) ∧
        ∃ directory rest, walk t true here steps = .link directory target rest := by
  induction steps generalizing here with
  | nil => exact .inl rfl
  | cons step rest ih =>
    cases step with
    | stay | up => exact ih _
    | name s =>
      unfold walk
      split
      · exact .inl rfl
      dsimp only
      split
      · exact .inl rfl
      · exact ih _
      · exact .inl rfl
      · cases rest with
        | nil => exact .inr ⟨_, _, rfl, _, _, rfl⟩
        | cons => exact .inl rfl

/-- Where a walk comes to something when it passes a link at the end, it also does when not. -/
theorem walkLinks_found {links : Nat}
    (found : walkLinks t true links here steps = .found place node) :
    ∃ place' node', walkLinks t false links here steps = .found place' node' := by
  fun_induction walkLinks t true links here steps with
  | case1 | case2 => cases found
  | case3 here steps directory target rest linked links full beyond ih =>
    rcases t.walk_of_walk_true here steps with same | ⟨p, l, ended, -⟩
    · rw [walkLinks_of_link (same.trans linked) full]
      exact ih found
    · rw [walkLinks_of_not (by rw [ended]; exact nofun), ended]
      exact ⟨_, _, rfl⟩
  | case4 links here steps ended =>
    rcases t.walk_of_walk_true here steps with same | ⟨p, l, -, d, r, linked⟩
    · rw [walkLinks_of_not (by rw [same]; exact ended), same, found]
      exact ⟨_, _, rfl⟩
    · exact absurd linked (ended d l r)

/-- What a path leads to when it passes a link at the end, or that link, it leads to when not. -/
theorem resolve_found (found : t.resolve true here path = .found place node) :
    ∃ place' node', t.resolve false here path = .found place' node' := by
  cases slash : endsInSlash path with
  | true =>
    have same : t.resolve false here path = t.resolve true here path := by
      unfold resolve trace
      rw [slash]
      rfl
    exact ⟨place, node, same.trans found⟩
  | false =>
    unfold resolve trace at found ⊢
    rw [slash] at found ⊢
    split at found
    · cases found
    split at found
    · cases found
    split at found
    · cases found
    rename_i plain full short
    rw [if_neg plain, if_neg full, if_neg short]
    have there : walkLinks t true linkMax (if Path.isAbsolute path then [] else here)
        (walkSteps path) = .found place node := by
      dsimp only at found
      split at found <;> exact found
    obtain ⟨place', node', before⟩ := walkLinks_found there
    refine ⟨place', node', ?_⟩
    rw [Bool.or_self, before]
    cases node' <;> rfl

theorem resolve_of_find (found : t.find here path = .ok (place, node)) :
    t.resolve true here path = .found place node := by
  unfold find at found
  split at found
  · rename_i there
    cases found
    exact there
  all_goals cases found

/-- What a path leads to is in the way of a directory. -/
theorem makeDirectory_of_find (found : t.find here path = .ok (place, node)) :
    t.makeDirectory here path = .error .alreadyThere := by
  obtain ⟨place', node', there⟩ := resolve_found (resolve_of_find found)
  unfold makeDirectory
  rw [there]

/-! ## 3. Making directories -/

section Absent

variable {directory : Place} {name : String}

/-- Where a name is missing a directory can be made, and then the walk leads to it, whether or not
    it passes a link at the end. -/
theorem walk_absent (absent : walk t follow here steps = .absent directory name) :
    t.get? (directory ++ [name]) = none ∧
      ∀ t', Grows t t' → t'.get? (directory ++ [name]) = some .directory →
        walk t' true here steps = .found (directory ++ [name]) .directory := by
  fun_induction walk t follow here steps with
  | case2 _ _ ih | case3 _ _ ih => exact ih absent
  | case5 here s rest fits there free last =>
    cases absent
    refine ⟨free, fun t' _ made => ?_⟩
    rw [List.isEmpty_iff.mp last, walk, if_neg fits]
    dsimp only
    rw [made]
    rfl
  | case7 here s rest fits there kept ih =>
    obtain ⟨free, leads⟩ := ih absent
    refine ⟨free, fun t' grows made => ?_⟩
    rw [walk, if_neg fits]
    dsimp only
    rw [grows _ _ rfl kept]
    exact leads t' grows made
  | _ => cases absent

theorem walkLinks_absent {links : Nat}
    (absent : walkLinks t follow links here steps = .absent directory name) :
    t.get? (directory ++ [name]) = none ∧
      ∀ t', Grows t t' → t'.get? (directory ++ [name]) = some .directory →
        walkLinks t' true links here steps = .found (directory ++ [name]) .directory := by
  fun_induction walkLinks t follow links here steps with
  | case1 | case2 => cases absent
  | case3 here steps d l r linked links full beyond ih =>
    obtain ⟨free, leads⟩ := ih absent
    refine ⟨free, fun t' grows made => ?_⟩
    have passed : walk t true here steps = .link d l r := by
      cases follow with
      | true => exact linked
      | false =>
        rcases t.walk_of_walk_true here steps with same | ⟨_, _, ended, -⟩
        · exact same.symm.trans linked
        · rw [linked] at ended
          cases ended
    have same : walk t' true here steps = walk t true here steps :=
      grows.walk (fun _ _ => rfl) (by rw [passed]; rfl)
    rw [walkLinks_of_link (same.trans passed) full]
    exact leads t' grows made
  | case4 links here steps ended =>
    obtain ⟨free, leads⟩ := walk_absent absent
    refine ⟨free, fun t' grows made => ?_⟩
    have found := leads t' grows made
    rw [walkLinks_of_not (by rw [found]; exact nofun), found]

theorem resolve_absent (absent : t.resolve follow here path = .absent directory name) :
    t.get? (directory ++ [name]) = none ∧
      ∀ t', Grows t t' → t'.get? (directory ++ [name]) = some .directory →
        t'.find here path = .ok (directory ++ [name], .directory) := by
  unfold resolve trace at absent
  split at absent
  · cases absent
  split at absent
  · cases absent
  split at absent
  · cases absent
  rename_i plain full short
  have missing : walkLinks t (follow || endsInSlash path) linkMax
      (if Path.isAbsolute path then [] else here) (walkSteps path) = .absent directory name := by
    dsimp only at absent
    split at absent
    · split at absent
      · cases absent
      · exact absent
    · exact absent
  obtain ⟨free, leads⟩ := walkLinks_absent missing
  refine ⟨free, fun t' grows made => ?_⟩
  unfold find resolve trace
  rw [if_neg plain, if_neg full, if_neg short, Bool.true_or, leads t' grows made]

end Absent

/-- **A directory that is made** is added to the tree, and its path leads to it. -/
theorem makeDirectory_ok (made : t.makeDirectory here path = .ok t') :
    Grows t t' ∧ t'.reachesDirectory here path = true := by
  unfold makeDirectory at made
  split at made
  · rename_i directory name absent
    cases made
    obtain ⟨free, leads⟩ := resolve_absent absent
    have grows := grows_put free .directory
    have there := get?_put_self t (p := directory ++ [name]) .directory (by simp)
    exact ⟨grows, reachesDirectory_iff.mpr ⟨_, leads _ grows there⟩⟩
  all_goals cases made

/-- Making directories adds to the tree, and the last path then leads to one if all goes well. -/
theorem makeEach_spec (paths : List String) (t : FileTree) :
    Grows t (makeEach here t paths).2 ∧
      ∀ t' path, (makeEach here t paths).1 = .ok t' → paths.getLast? = some path →
        (makeEach here t paths).2.reachesDirectory here path = true := by
  induction paths generalizing t with
  | nil => exact ⟨.refl t, nofun⟩
  | cons first rest ih =>
    unfold makeEach
    split
    · rename_i t₁ made
      obtain ⟨grows, there⟩ := makeDirectory_ok made
      obtain ⟨more, last⟩ := ih t₁
      refine ⟨grows.trans more, fun t' path done here => ?_⟩
      cases rest with
      | nil =>
        cases here
        exact there
      | cons second rest => exact last t' path done (by rwa [List.getLast?_cons_cons] at here)
    · split
      · rename_i there
        obtain ⟨more, last⟩ := ih t
        refine ⟨more, fun t' path done here => ?_⟩
        cases rest with
        | nil =>
          cases here
          exact there
        | cons second rest => exact last t' path done (by rwa [List.getLast?_cons_cons] at here)
      · exact ⟨.refl t, nofun⟩

/-- What is still to be made below a path stays last. -/
theorem stillToMake_suffix (here : Place) (above below : List String) :
    below <:+ stillToMake t here below above := by
  induction above generalizing below with
  | nil => exact List.suffix_rfl
  | cons path above ih =>
    unfold stillToMake
    split
    · exact List.suffix_rfl
    · split
      · exact (List.suffix_cons path below).trans (ih _)
      · exact List.suffix_cons path below

theorem ancestors_eq_cons (n : Nat) (path : String) :
    ∃ above, ancestors n path = path :: above := by
  cases n with
  | zero => exact ⟨[], rfl⟩
  | succ n =>
    unfold ancestors
    split <;> exact ⟨_, rfl⟩

theorem grows_makeDirectories (t : FileTree) (here : Place) (path : String) :
    Grows t (t.makeDirectories here path).2 :=
  (makeEach_spec _ t).1

/-- For the empty path nothing is made. -/
theorem makeDirectories_empty (t : FileTree) (here : Place) :
    t.makeDirectories here "" = (.ok (), t) := rfl

/-- **A path for which directories were made leads to one.** -/
theorem reachesDirectory_of_makeDirectories (full : path ≠ "")
    (made : (t.makeDirectories here path).1 = .ok ()) :
    (t.makeDirectories here path).2.reachesDirectory here path = true := by
  obtain ⟨above, up⟩ := ancestors_eq_cons path.length path
  have last : (stillToMake t here [] (ancestors path.length path)).getLast? = some path := by
    have named : ¬ path.isEmpty = true := by simpa using full
    have suffix : [path] <:+ stillToMake t here [] (ancestors path.length path) := by
      rw [up, stillToMake, if_neg named]
      split
      · exact stillToMake_suffix here above [path]
      · exact List.suffix_rfl
    obtain ⟨before, same⟩ := suffix
    rw [← same, List.getLast?_concat]
  have made : (makeEach here t (stillToMake t here [] (ancestors path.length path))).1.map
      (fun _ => ()) = .ok () := made
  cases done : (makeEach here t (stillToMake t here [] (ancestors path.length path))).1 with
  | ok t' => exact (makeEach_spec _ t).2 t' path done last
  | error cause =>
    rw [done] at made
    cases made

/-- **Where a directory is there already, nothing is made.** -/
theorem makeDirectories_of_directory (there : t.reachesDirectory here path = true) :
    t.makeDirectories here path = (.ok (), t) := by
  obtain ⟨place, found⟩ := reachesDirectory_iff.mp there
  have blocked := makeDirectory_of_find found
  obtain ⟨above, up⟩ := ancestors_eq_cons path.length path
  have nothing : makeEach here t (stillToMake t here [] (ancestors path.length path)) =
      (.ok t, t) := by
    rw [up, stillToMake]
    split
    · rfl
    · rw [blocked]
      simp only [makeEach, blocked, there, if_true]
  unfold makeDirectories
  rw [nothing]
  rfl

end FileTree

end CodeInsight
