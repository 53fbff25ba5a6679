import CodeInsight.Table
import Mathlib.Data.Finset.Card
import Mathlib.Data.Finset.Dedup

/-!
# Tables that were filled

* a table keeps each path once (`Table.Single`), so its size is the number of its paths, and
  erasing a path without a value changes nothing (`size_eq_card`, `erase_of_not_mem`);
* `filed` puts things into a table one after the other, each under its key: **a key's value is that
  of the last thing under it** (`get?_filed`), and **the size is the number of keys**
  (`size_filed`).
-/

namespace CodeInsight.Table

variable {α β : Type}

/-! ## 1. Paths -/

/-- The paths with a value, the one that was set last first. -/
def paths (t : Table α) : List String := t.entries.map (·.1)

theorem mem_keys {t : Table α} {path : String} : path ∈ t.keys ↔ path ∈ t.paths := by
  simp [keys, paths]

theorem length_keys (t : Table α) : t.keys.length = t.size := by
  simp [keys, size]

theorem eq_empty_of_paths {t : Table α} (h : t.paths = []) : t = empty :=
  congrArg mk (List.map_eq_nil_iff.mp h)

theorem get?_eq_none_iff {t : Table α} {path : String} : t.get? path = none ↔ path ∉ t.paths := by
  unfold get? paths
  rw [List.lookup_eq_none_iff, List.mem_map]
  constructor
  · intro other ⟨e, he, same⟩
    exact bne_iff_ne.mp (other e he) same.symm
  · intro none e he
    exact bne_iff_ne.mpr fun same => none ⟨e, he, same.symm⟩

@[simp] theorem paths_empty : (empty : Table α).paths = [] := rfl

@[simp] theorem paths_erase (t : Table α) (path : String) :
    (t.erase path).paths = t.paths.filter (· != path) := by
  simp only [paths, erase, List.filter_map]
  rfl

@[simp] theorem paths_set (t : Table α) (path : String) (value : α) :
    (t.set path value).paths = path :: t.paths.filter (· != path) := by
  rw [← paths_erase]
  rfl

theorem erase_of_not_mem {t : Table α} {path : String} (h : path ∉ t.paths) : t.erase path = t := by
  cases t with
  | mk entries =>
    refine congrArg mk (List.filter_eq_self.mpr fun e he => ?_)
    have other : e.1 ≠ path := fun same => h (same ▸ List.mem_map_of_mem he)
    simpa using other

theorem erase_set_of_not_mem {t : Table α} {path : String} (value : α) (h : path ∉ t.paths) :
    (t.set path value).erase path = t := by
  have gone : (t.set path value).erase path = (t.erase path).erase path := by
    simp [erase, set]
  rw [gone, erase_of_not_mem h, erase_of_not_mem h]

/-! ## 2. Tables filled by one thing after the other -/

/-- The table in which each of some things was set under its key, one after the other. -/
def filed (key : β → String) (value : β → α) (xs : List β) : Table α :=
  xs.foldl (fun t x => t.set (key x) (value x)) empty

variable {key : β → String} {value : β → α} {xs : List β}

@[simp] theorem filed_nil : filed key value [] = empty := rfl

theorem filed_concat (xs : List β) (x : β) :
    filed key value (xs ++ [x]) = (filed key value xs).set (key x) (value x) := by
  simp [filed]

theorem mem_paths_filed {path : String} :
    path ∈ (filed key value xs).paths ↔ path ∈ xs.map key := by
  induction xs using List.reverseRecOn with
  | nil => simp
  | append_singleton xs x ih =>
    rw [filed_concat, paths_set, List.map_append, List.map_singleton, List.mem_cons,
      List.mem_filter, ih, List.mem_append, List.mem_singleton, bne_iff_ne]
    by_cases h : path = key x
    · simp [h]
    · simp [h]

theorem nodup_paths_filed (xs : List β) : (filed key value xs).paths.Nodup := by
  induction xs using List.reverseRecOn with
  | nil => exact List.nodup_nil
  | append_singleton xs x ih =>
    rw [filed_concat, paths_set]
    exact List.nodup_cons.mpr ⟨by simp, ih.filter _⟩

/-- **A key's value is that of the last thing under it.** -/
theorem get?_filed (xs : List β) (path : String) :
    (filed key value xs).get? path =
      (xs.reverse.find? fun x => decide (key x = path)).map value := by
  induction xs using List.reverseRecOn with
  | nil => rfl
  | append_singleton xs x ih =>
    rw [filed_concat, List.reverse_append, List.reverse_singleton, List.singleton_append]
    by_cases h : key x = path
    · subst h
      simp
    · rw [get?_set_ne _ _ (Ne.symm h), ih, List.find?_cons_of_neg (by simpa using h)]

/-- **The size is the number of keys.** -/
theorem size_filed (xs : List β) : (filed key value xs).size = (xs.map key).toFinset.card := by
  have same : (filed key value xs).paths.toFinset = (xs.map key).toFinset := by
    ext path
    rw [List.mem_toFinset, List.mem_toFinset, mem_paths_filed]
  rw [← same, List.toFinset_card_of_nodup (nodup_paths_filed xs)]
  simp [size, paths]

end CodeInsight.Table
