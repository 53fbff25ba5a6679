import CodeInsight.Json.Decode
import CodeInsight.Proofs.Json.Reading

/-!
# What is encoded is decoded

* texts, natural numbers of 64 bits, lists, records and choices are decoded from what they are
  encoded as (`nat64?_ofNat`, `list?_map`, `record?_record`, `choice?_ofText`);
* what they are encoded as is written as it is read (`written_ofText`, `written_ofNat`,
  `written_record`), so it is read back from both forms of JSON.
-/

namespace CodeInsight.Json

/-! ## 1. Texts and numbers -/

/-- A sign that stands for itself between quotes. -/
def isPlain (c : Char) : Bool := c != '"' && c != '\\' && decide (32 ≤ c.toNat)

theorem escape_of_plain {s : List Char} (h : ∀ c ∈ s, isPlain c = true) : escape s = s := by
  induction s with
  | nil => rfl
  | cons c s ih =>
    obtain ⟨plain, rest⟩ := List.forall_mem_cons.mp h
    simp only [isPlain, Bool.and_eq_true, bne_iff_ne, decide_eq_true_eq] at plain
    obtain ⟨⟨quote, slash⟩, visible⟩ := plain
    have control : ∀ d : Char, d.toNat < 32 → c ≠ d := by
      rintro d hd rfl
      omega
    have itself : escapeChar c = [c] := by
      simp [escapeChar, quote, slash, control '\x08' (by decide), control '\x0c' (by decide),
        control '\n' (by decide), control '\r' (by decide), control '\t' (by decide)]
      omega
    have step : escape (c :: s) = escapeChar c ++ escape s := by simp [escape]
    rw [step, itself, ih rest]
    rfl

theorem isPlain_of_isDigit {c : Char} (h : c.isDigit = true) : isPlain c = true := by
  simp only [Char.isDigit, Bool.and_eq_true, decide_eq_true_eq] at h
  have low : 48 ≤ c.toNat := h.1
  have high : c.toNat ≤ 57 := h.2
  simp only [isPlain, Bool.and_eq_true, bne_iff_ne, decide_eq_true_eq]
  refine ⟨⟨?_, ?_⟩, by omega⟩
  · rintro rfl
    exact absurd low (by decide)
  · rintro rfl
    exact absurd high (by decide)

/-- A text of plain signs is read as it stands. -/
theorem text?_of_plain {s : List Char} (h : ∀ c ∈ s, isPlain c = true) :
    (string s).text? = some (String.ofList s) := by
  have same := unescape?_escape s
  rw [escape_of_plain h] at same
  simp [text?, same]

theorem written_of_plain {s : List Char} (h : ∀ c ∈ s, isPlain c = true) : Written (string s) := by
  have raw := isRaw_escape s
  rw [escape_of_plain h] at raw
  exact .string raw

theorem written_ofText (s : String) : Written (ofText s) := .string (isRaw_escape _)

theorem written_ofNat (n : Nat) : Written (ofNat n) := .number (isLiteral_toDigits n)

/-- **A number of 64 bits is decoded from its digits.** -/
theorem nat64?_ofNat {n : Nat} (h : n < wordBound) : (ofNat n).nat64? = some n := by
  have digits : (Nat.toDigits 10 n).all Char.isDigit = true :=
    List.all_eq_true.mpr isDigit_toDigits
  have some' : (Nat.toDigits 10 n).isEmpty = false := by
    simp [Nat.toDigits_ne_nil]
  have value : digitsValue (Nat.toDigits 10 n) = n := value_toDigits n
  simp [nat64?, ofNat, digits, some', value, h]

/-! ## 2. Lists and records -/

/-- A list is decoded as its items are. -/
theorem list?_map {α β : Type} {encode : α → Json} {decode : Json → Option β} {f : α → β}
    {xs : List α} (h : ∀ x ∈ xs, decode (encode x) = some (f x)) :
    list? decode (array (xs.map encode)) = some (xs.map f) := by
  show (xs.map encode).mapM decode = some (xs.map f)
  induction xs with
  | nil => rfl
  | cons x xs ih =>
    obtain ⟨hx, hxs⟩ := List.forall_mem_cons.mp h
    simp [List.mapM_cons, hx, ih hxs]

/-- A list is decoded if each of its items is. -/
theorem list?_map_self {α : Type} {encode : α → Json} {decode : Json → Option α} {xs : List α}
    (h : ∀ x ∈ xs, decode (encode x) = some x) :
    list? decode (array (xs.map encode)) = some xs := by
  rw [list?_map (f := id) h, List.map_id]

/-- Of the members of a record those with known names are known. -/
theorem knownMembers?_record (names : List String) (members : List (String × Json)) :
    knownMembers? names (members.map fun m => (escape m.1.toList, m.2)) =
      some (members.filter fun m => names.contains m.1) := by
  induction members with
  | nil => rfl
  | cons m members ih =>
    rw [List.map_cons, knownMembers?, unescape?_escape, ih, List.filter_cons]
    simp only [String.ofList_toList]

theorem distinctNames_of_nodup {members : List (String × Json)}
    (h : (members.map (·.1)).Nodup) : distinctNames members = true := by
  induction members with
  | nil => rfl
  | cons m members ih =>
    obtain ⟨fresh, rest⟩ := List.nodup_cons.mp h
    have alone : members.any (fun n => n.1 == m.1) = false := by
      refine List.any_eq_false.mpr fun n hn same => fresh ?_
      show m.1 ∈ members.map (·.1)
      rw [← beq_iff_eq.mp same]
      exact List.mem_map_of_mem hn
    simp [distinctNames, alone, ih rest]

/-- **A record is decoded field by field** if its members are all the fields, each once. -/
theorem record?_record (names : List String) (members : List (String × Json))
    (all : members.map (·.1) = names) (once : names.Nodup) :
    record? names (record members) = some fun name => members.lookup name := by
  have known : members.filter (fun m => names.contains m.1) = members := by
    refine List.filter_eq_self.mpr fun m hm => ?_
    rw [← all]
    exact List.contains_iff_mem.mpr (List.mem_map_of_mem hm)
  rw [← all] at once
  unfold record? fieldsOf? record
  dsimp only
  rw [knownMembers?_record, known]
  dsimp only
  rw [if_pos (distinctNames_of_nodup once)]

theorem written_record {members : List (String × Json)} (h : ∀ m ∈ members, Written m.2) :
    Written (record members) := by
  refine .object (fun m hm => ?_) fun m hm => ?_
  · obtain ⟨n, -, rfl⟩ := List.mem_map.mp hm
    exact isRaw_escape _
  · obtain ⟨n, hn, rfl⟩ := List.mem_map.mp hm
    exact h n hn

theorem written_list {α : Type} {encode : α → Json} {xs : List α}
    (h : ∀ x ∈ xs, Written (encode x)) : Written (array (xs.map encode)) := by
  refine .array fun j hj => ?_
  obtain ⟨x, hx, rfl⟩ := List.mem_map.mp hj
  exact h x hx

/-! ## 3. Choices -/

/-- **A choice is decoded from its name** if no other has it. -/
theorem choice?_ofText {α : Type} {name : α → String} {all : List α} {a : α} (ha : a ∈ all)
    (inj : ∀ b ∈ all, name b = name a → b = a) : choice? name all (ofText (name a)) = some a := by
  have named : choiceName? (ofText (name a)) = some (name a) := by
    simp [choiceName?, ofText, unescape?_escape]
  have found : all.find? (fun b => name b == name a) = some a := by
    cases hf : all.find? (fun b => name b == name a) with
    | none => exact absurd (beq_self_eq_true _) (List.find?_eq_none.mp hf a ha)
    | some b =>
      have same := inj b (List.mem_of_find?_eq_some hf) (by simpa using List.find?_some hf)
      rw [same]
  unfold choice?
  rw [named]
  exact found

end CodeInsight.Json
