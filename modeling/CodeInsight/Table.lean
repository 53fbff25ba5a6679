/-!
# Tables

* a `Table` keeps at most one value for each path; `get?`, `set` and `erase` are its operations;
* a new value takes the place of the old one, so values are never mixed (`get?_set_self`,
  `get?_set_ne`);
* `keys` are the paths in ascending order.
-/

namespace CodeInsight

/-- Values by path. -/
structure Table (α : Type) where
  entries : List (String × α) := []

namespace Table

variable {α : Type}

instance : Inhabited (Table α) := ⟨⟨[]⟩⟩

/-- The table without values. -/
def empty : Table α := ⟨[]⟩

/-- The value of a path. -/
def get? (t : Table α) (path : String) : Option α := t.entries.lookup path

/-- Whether a path has a value. -/
def contains (t : Table α) (path : String) : Bool := (t.get? path).isSome

/-- The table without the value of a path. -/
def erase (t : Table α) (path : String) : Table α := ⟨t.entries.filter fun e => e.1 != path⟩

/-- The table with a value for a path, whatever value it had. -/
def set (t : Table α) (path : String) (value : α) : Table α :=
  ⟨(path, value) :: (t.erase path).entries⟩

/-- The number of paths with a value. -/
def size (t : Table α) : Nat := t.entries.length

/-- Whether no path has a value. -/
def isEmpty (t : Table α) : Bool := t.entries.isEmpty

/-- The paths with a value, in ascending order. -/
def keys (t : Table α) : List String :=
  (t.entries.map (·.1)).mergeSort fun a b => decide (a ≤ b)

@[simp] theorem get?_empty (path : String) : (empty : Table α).get? path = none := rfl

@[simp] theorem get?_set_self (t : Table α) (path : String) (value : α) :
    (t.set path value).get? path = some value := by
  simp [set, get?]

theorem lookup_filter_ne (l : List (String × α)) {path other : String} (h : other ≠ path) :
    (l.filter fun e => e.1 != path).lookup other = l.lookup other := by
  induction l with
  | nil => rfl
  | cons e l ih =>
    obtain ⟨k, v⟩ := e
    by_cases hk : k = path
    · subst hk
      have : (other == k) = false := by simpa using h
      simp [List.lookup_cons, this, ih]
    · by_cases ho : other = k
      · subst ho; simp [hk]
      · have : (other == k) = false := by simpa using ho
        simp [hk, List.lookup_cons, this, ih]

theorem get?_set_ne (t : Table α) {path other : String} (value : α) (h : other ≠ path) :
    (t.set path value).get? other = t.get? other := by
  have hb : (other == path) = false := by simpa using h
  simp [set, get?, List.lookup_cons, hb, erase, lookup_filter_ne _ h]

theorem get?_erase_ne (t : Table α) {path other : String} (h : other ≠ path) :
    (t.erase path).get? other = t.get? other := by
  simp [get?, erase, lookup_filter_ne _ h]

@[simp] theorem get?_erase_self (t : Table α) (path : String) :
    (t.erase path).get? path = none := by
  simp only [get?, erase]
  induction t.entries with
  | nil => rfl
  | cons e l ih =>
    obtain ⟨k, v⟩ := e
    by_cases hk : k = path
    · subst hk; simpa using ih
    · have : (path == k) = false := by simpa using fun h : path = k => hk h.symm
      simp [hk, List.lookup_cons, this, ih]

end Table

end CodeInsight
