/-!
# File trees

* a `FileTree` is what a file system holds: files, directories and links by their places, a place
  being the names that lead to it from the root;
* the root is a directory that is always there;
* `get?_put_self` and `get?_put_ne`: a change at one place leaves every other as it was.
-/

namespace CodeInsight

/-- What is at a place. -/
inductive FileNode where
  | file (content : List UInt8)
  | directory
  | link (target : String)
  deriving DecidableEq, Repr

/-- The names that lead to something from the root. -/
abbrev Place := List String

/-- Files, directories and links by their places. -/
structure FileTree where
  nodes : List (Place × FileNode) := []

namespace FileTree

instance : Inhabited FileTree := ⟨{}⟩

/-- What is at a place. -/
def get? (t : FileTree) (p : Place) : Option FileNode :=
  if p = [] then some .directory else t.nodes.lookup p

/-- The tree without what is at a place itself. -/
def drop (t : FileTree) (p : Place) : FileTree := ⟨t.nodes.filter fun e => e.1 != p⟩

/-- The tree with something at a place, instead of what was there. -/
def put (t : FileTree) (p : Place) (n : FileNode) : FileTree := ⟨(p, n) :: (t.drop p).nodes⟩

/-- The tree without a place and everything below it. -/
def prune (t : FileTree) (p : Place) : FileTree := ⟨t.nodes.filter fun e => !p.isPrefixOf e.1⟩

/-- The name of a place in a directory, if that is where the place is. -/
def nameIn? (directory p : Place) : Option String :=
  match p.getLast? with
  | none => none
  | some name => if p.dropLast = directory then some name else none

/-- The names in a directory, in ascending order. -/
def names (t : FileTree) (directory : Place) : List String :=
  (t.nodes.filterMap fun e => nameIn? directory e.1).mergeSort fun a b => decide (a ≤ b)

/-- The places below a directory with what is there. -/
def below (t : FileTree) (directory : Place) : List (Place × FileNode) :=
  t.nodes.filterMap fun e =>
    if directory.isPrefixOf e.1 && e.1.length != directory.length then
      some (e.1.drop directory.length, e.2)
    else none

/-- The text of a place below a directory. -/
def placeText (p : Place) : String := String.intercalate "/" p

/-- The absolute path of a place. -/
def pathOf (p : Place) : String := "/" ++ placeText p

/-- What is below a directory, a line each in ascending order, directories marked by a slash. -/
def listing (t : FileTree) (directory : Place) : List String :=
  ((t.below directory).map fun e =>
    if e.2 = .directory then placeText e.1 ++ "/" else placeText e.1).mergeSort
      fun a b => decide (a ≤ b)

@[simp] theorem get?_put_self (t : FileTree) {p : Place} (n : FileNode) (h : p ≠ []) :
    (t.put p n).get? p = some n := by
  simp [get?, put, h]

theorem lookup_filter_ne {l : List (Place × FileNode)} {p q : Place} (h : q ≠ p) :
    (l.filter fun e => e.1 != p).lookup q = l.lookup q := by
  induction l with
  | nil => rfl
  | cons e l ih =>
    obtain ⟨k, n⟩ := e
    by_cases hk : k = p
    · subst hk
      have : (q == k) = false := by simpa using h
      simp [List.lookup_cons, this, ih]
    · by_cases hq : q = k
      · subst hq; simp [hk]
      · have : (q == k) = false := by simpa using hq
        simp [hk, List.lookup_cons, this, ih]

theorem get?_put_ne (t : FileTree) {p q : Place} (n : FileNode) (h : q ≠ p) :
    (t.put p n).get? q = t.get? q := by
  have hb : (q == p) = false := by simpa using h
  by_cases hq : q = []
  · simp [get?, hq]
  · simp [get?, put, hq, List.lookup_cons, hb, drop, lookup_filter_ne h]

theorem get?_drop_ne (t : FileTree) {p q : Place} (h : q ≠ p) : (t.drop p).get? q = t.get? q := by
  by_cases hq : q = []
  · simp [get?, hq]
  · simp [get?, hq, drop, lookup_filter_ne h]

end FileTree

end CodeInsight
