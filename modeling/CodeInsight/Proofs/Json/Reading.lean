import CodeInsight.Json.Printer
import CodeInsight.Json.Reader
import CodeInsight.Proofs.Number.Digits

/-!
# What is written can be read

* `Writes` says which texts write a value: its parts in their order, with blanks where JSON allows
  them; every such text is read as the value (`readValue_of_writes`);
* the compact form and the form for readers are such texts (`writes_compact`, `writes_pretty`) if
  the strings and numbers in the value are written as they are read (`Written`);
* so **a value is read back from each of its forms** (`parse?_compact`, `parse?_pretty`).
-/

namespace CodeInsight.Json

/-! ## 1. Blanks, strings and numbers -/

/-- Blanks that may stand between parts of a value. -/
def Blanks (b : List Char) : Prop := ∀ c ∈ b, isSpace c = true

/-- What may stand behind a value: nothing, a blank, or a mark that no number goes on with. -/
def Ends (rest : List Char) : Prop :=
  ∀ c ∈ rest.head?, isSpace c = true ∨ c = ',' ∨ c = ']' ∨ c = '}'

/-- A text that can stand between quotes as it is. -/
def IsRaw (raw : List Char) : Prop := ∀ rest, readRaw (raw ++ '"' :: rest) = some (raw, rest)

/-- A text that is read as a number up to its end. -/
def IsLiteral (literal : List Char) : Prop :=
  (∃ c cs, literal = c :: cs ∧ (c = '-' ∨ c.isDigit = true)) ∧
    ∀ rest, Ends rest → readNumber (literal ++ rest) = some (literal, rest)

theorem skipSpace_blanks {b s : List Char} (hb : Blanks b) : skipSpace (b ++ s) = skipSpace s :=
  List.dropWhile_append_of_pos hb

theorem skipSpace_cons {c : Char} {s : List Char} (hc : isSpace c = false) :
    skipSpace (c :: s) = c :: s := by
  simp [skipSpace, hc]

theorem blanks_newLine (level : Nat) : Blanks (newLine level) := by
  intro c hc
  rcases List.mem_cons.mp hc with rfl | blank
  · decide
  · rw [List.eq_of_mem_replicate blank]
    decide

/-- A character that needs no escape is read as it is. -/
theorem readRaw_plain {c : Char} {s : List Char} (quote : c ≠ '"') (slash : c ≠ '\\')
    (plain : ¬ c.toNat < 32) : readRaw (c :: s) = (readRaw s).map fun r => (c :: r.1, r.2) := by
  rw [readRaw.eq_def]
  split
  case h_1 heq => cases heq
  case h_2 heq => cases heq; exact absurd rfl quote
  case h_3 heq => cases heq; exact absurd rfl slash
  case h_4 heq => cases heq; exact absurd rfl slash
  case h_5 heq => cases heq; exact absurd rfl slash
  case h_6 heq =>
    cases heq
    exact if_neg plain

/-- What one character is escaped to is read as it is written. -/
theorem readRaw_escapeChar (c : Char) (s : List Char) :
    readRaw (escapeChar c ++ s) = (readRaw s).map fun r => (escapeChar c ++ r.1, r.2) := by
  unfold escapeChar
  split
  · simp [readRaw, shortEscape?]
  split
  · simp [readRaw, shortEscape?]
  split
  · simp [readRaw, shortEscape?]
  split
  · simp [readRaw, shortEscape?]
  split
  · simp [readRaw, shortEscape?]
  split
  · simp [readRaw, shortEscape?]
  split
  · simp [readRaw, shortEscape?]
  split
  · have h0 : hexValue? '0' = some 0 := by decide
    have h1 := hexValue?_hexDigit (c.toNat / 16) (by omega)
    have h2 := hexValue?_hexDigit (c.toNat % 16) (by omega)
    simp [readRaw, hex4?, h0, h1, h2]
  · rename_i quote slash _ _ _ _ _ plain
    exact readRaw_plain quote slash plain

/-- **What is escaped can stand between quotes.** -/
theorem isRaw_escape (s : List Char) : IsRaw (escape s) := by
  intro rest
  induction s with
  | nil => simp [escape, readRaw]
  | cons c s ih =>
    have split : escape (c :: s) = escapeChar c ++ escape s := by simp [escape]
    rw [split, List.append_assoc, readRaw_escapeChar, ih]
    rfl

/-- The digits of a number are a literal of it. -/
theorem isLiteral_toDigits (n : Nat) : IsLiteral (Nat.toDigits 10 n) := by
  obtain ⟨d, ds, hd⟩ := List.exists_cons_of_ne_nil (Nat.toDigits_ne_nil (n := n) (b := 10))
  have first : d ∈ Nat.toDigits 10 n := by
    rw [hd]
    exact List.mem_cons_self
  have digit : d.isDigit = true := isDigit_toDigits d first
  refine ⟨⟨d, ds, hd, .inr digit⟩, fun rest ends => ?_⟩
  have stops : ∀ c ∈ rest.head?, c.isDigit = false ∧ c ≠ '.' ∧ c ≠ 'e' ∧ c ≠ 'E' := by
    intro c hc
    rcases ends c hc with blank | rfl | rfl | rfl
    · simp only [isSpace, Bool.or_eq_true, beq_iff_eq] at blank
      rcases blank with ((rfl | rfl) | rfl) | rfl <;> decide
    all_goals decide
  have whole : readWhole (Nat.toDigits 10 n ++ rest) = some (Nat.toDigits 10 n, rest) := by
    by_cases hn : n = 0
    · subst hn
      rfl
    · have first : d ≠ '0' := by
        have := head?_toDigits hn
        rw [hd] at this
        simpa using this
      have digits : readDigits (Nat.toDigits 10 n ++ rest) = some (Nat.toDigits 10 n, rest) := by
        unfold readDigits
        rw [takeWhile_digits isDigit_toDigits fun c hc => (stops c hc).1,
          dropWhile_digits isDigit_toDigits fun c hc => (stops c hc).1]
        simp [hd]
      rw [← digits, hd, readWhole.eq_def]
      split
      · rename_i same
        exact absurd (List.cons.inj same).1 first
      · rfl
  have fraction : readFraction rest = some ([], rest) := by
    unfold readFraction
    split
    · exact absurd rfl (stops '.' rfl).2.1
    · rfl
  have exponent : readExponent rest = some ([], rest) := by
    unfold readExponent
    split
    · exact absurd rfl (stops 'e' rfl).2.2.1
    · exact absurd rfl (stops 'E' rfl).2.2.2
    · rfl
  have magnitude : readMagnitude (Nat.toDigits 10 n ++ rest) = some (Nat.toDigits 10 n, rest) := by
    simp [readMagnitude, whole, fraction, exponent]
  rw [← magnitude, hd, readNumber.eq_def]
  split
  · rename_i same
    cases (List.cons.inj same).1
    cases digit
  · rfl

/-! ## 2. Texts that write a value -/

mutual

/-- **A text writes a value.** Blanks may stand in front of it. -/
inductive Writes : Json → List Char → Prop where
  | blank {j : Json} {c : Char} {s : List Char} (hc : isSpace c = true) (h : Writes j s) :
      Writes j (c :: s)
  | null : Writes null "null".toList
  | yes : Writes (bool true) "true".toList
  | no : Writes (bool false) "false".toList
  | number {literal : List Char} (h : IsLiteral literal) : Writes (number literal) literal
  | string {raw : List Char} (h : IsRaw raw) : Writes (string raw) (quoted raw)
  | noItems : Writes (array []) ['[', ']']
  | noMembers : Writes (object []) ['{', '}']
  | array {xs : List Json} {s : List Char} (h : WritesItems xs s) : Writes (array xs) ('[' :: s)
  | object {ms : List (List Char × Json)} {s : List Char} (h : WritesMembers ms s) :
      Writes (object ms) ('{' :: s)

/-- A text writes the items of an array and the bracket behind them. -/
inductive WritesItems : List Json → List Char → Prop where
  | last {x : Json} {s b : List Char} (h : Writes x s) (hb : Blanks b) :
      WritesItems [x] (s ++ (b ++ [']']))
  | more {x : Json} {xs : List Json} {s t : List Char} (h : Writes x s) (hs : WritesItems xs t) :
      WritesItems (x :: xs) (s ++ ',' :: t)

/-- A text writes the members of an object and the brace behind them. -/
inductive WritesMembers : List (List Char × Json) → List Char → Prop where
  | last {name a s b : List Char} {x : Json} (ha : Blanks a) (hn : IsRaw name) (h : Writes x s)
      (hb : Blanks b) :
      WritesMembers [(name, x)] (a ++ (quoted name ++ ':' :: (s ++ (b ++ ['}']))))
  | more {name a s t : List Char} {x : Json} {ms : List (List Char × Json)} (ha : Blanks a)
      (hn : IsRaw name) (h : Writes x s) (hs : WritesMembers ms t) :
      WritesMembers ((name, x) :: ms) (a ++ (quoted name ++ ':' :: (s ++ ',' :: t)))

end

theorem Writes.blanks {j : Json} {b s : List Char} (hb : Blanks b) (h : Writes j s) :
    Writes j (b ++ s) := by
  induction b with
  | nil => exact h
  | cons c b ih =>
    obtain ⟨hc, hb⟩ := List.forall_mem_cons.mp hb
    exact .blank hc (ih hb)

/-! ## 3. Reading a text that writes a value -/

/-- The signs with which a value can begin. -/
def isStart (c : Char) : Bool := ['n', 't', 'f', '"', '[', '{', '-'].contains c || c.isDigit

theorem not_isSpace_of_isStart {c : Char} (h : isStart c = true) : isSpace c = false := by
  cases blank : isSpace c with
  | false => rfl
  | true =>
    simp only [isSpace, Bool.or_eq_true, beq_iff_eq] at blank
    rcases blank with ((rfl | rfl) | rfl) | rfl <;> cases h

/-- A text that writes a value begins with it, after blanks. -/
theorem Writes.start {j : Json} {s : List Char} (h : Writes j s) (rest : List Char) :
    ∃ c t, skipSpace (s ++ rest) = c :: t ∧ isStart c = true := by
  have begins {c : Char} {t : List Char} (hc : isStart c = true) :
      ∃ d u, skipSpace (c :: t) = d :: u ∧ isStart d = true :=
    ⟨c, t, skipSpace_cons (not_isSpace_of_isStart hc), hc⟩
  match h with
  | .blank hc h =>
    obtain ⟨c, t, skipped, start⟩ := h.start rest
    exact ⟨c, t, by rw [← skipped]; simp [skipSpace, hc], start⟩
  | .number literal =>
    obtain ⟨⟨c, cs, rfl, first⟩, -⟩ := literal
    refine begins ?_
    rcases first with rfl | digit
    · decide
    · simp [isStart, digit]
  | .null | .yes | .no | .string _ | .noItems | .noMembers | .array _ | .object _ =>
    exact begins (by decide)

theorem WritesItems.start {xs : List Json} {s : List Char} (h : WritesItems xs s)
    (rest : List Char) : ∃ c t, skipSpace (s ++ rest) = c :: t ∧ isStart c = true := by
  cases h with
  | last h _ => rw [List.append_assoc]; exact h.start _
  | more h _ => rw [List.append_assoc]; exact h.start _

theorem WritesMembers.start {ms : List (List Char × Json)} {s : List Char}
    (h : WritesMembers ms s) (rest : List Char) : ∃ t, skipSpace (s ++ rest) = '"' :: t := by
  cases h with
  | last ha _ _ _ =>
    rw [List.append_assoc, skipSpace_blanks ha]
    exact ⟨_, skipSpace_cons (by decide)⟩
  | more ha _ _ _ =>
    rw [List.append_assoc, skipSpace_blanks ha]
    exact ⟨_, skipSpace_cons (by decide)⟩

/-- Blanks in front of a value are passed over. -/
theorem readValue_blank {n : Nat} {c : Char} {s : List Char} (hc : isSpace c = true) :
    readValue (n + 1) (c :: s) = readValue (n + 1) s := by
  have skipped : skipSpace (c :: s) = skipSpace s := by simp [skipSpace, hc]
  rw [readValue, readValue, skipped]

/-- Where a literal stands a number is read. -/
theorem readValue_literal {n : Nat} {c : Char} {cs : List Char}
    (first : c = '-' ∨ c.isDigit = true) :
    readValue (n + 1) (c :: cs) = (readNumber (c :: cs)).map fun r => (number r.1, r.2) := by
  have start : isStart c = true := by
    rcases first with rfl | digit
    · decide
    · simp [isStart, digit]
  rw [readValue, skipSpace_cons (not_isSpace_of_isStart start)]
  split
  case h_7 => rfl
  all_goals
    rename_i same
    obtain ⟨rfl, -⟩ := List.cons.inj same
    rcases first with dash | digit
    · cases dash
    · cases digit

/-- Behind a bracket the items of an array are read, or the bracket that ends it at once. -/
theorem readValue_array (n : Nat) (s : List Char) :
    readValue (n + 1) ('[' :: s) = match skipSpace s with
      | ']' :: rest => some (array [], rest)
      | _ => (readItems n s).map fun r => (array r.1, r.2) := by
  rw [readValue, skipSpace_cons (by decide)]
  rfl

/-- Behind a brace the members of an object are read, or the brace that ends it at once. -/
theorem readValue_object (n : Nat) (s : List Char) :
    readValue (n + 1) ('{' :: s) = match skipSpace s with
      | '}' :: rest => some (object [], rest)
      | _ => (readMembers n s).map fun r => (object r.1, r.2) := by
  rw [readValue, skipSpace_cons (by decide)]
  rfl

theorem ends_blanks {b rest : List Char} (hb : Blanks b) (he : Ends rest) : Ends (b ++ rest) := by
  cases b with
  | nil => exact he
  | cons c b =>
    intro d hd
    cases hd
    exact .inl (hb c List.mem_cons_self)

theorem ends_of_mark {c : Char} {rest : List Char} (hc : c = ',' ∨ c = ']' ∨ c = '}') :
    Ends (c :: rest) := by
  intro d hd
  cases hd
  exact .inr hc

mutual

/-- **A text that writes a value is read as the value**, and what follows it is left. -/
theorem readValue_of_writes {j : Json} {s : List Char} {n : Nat} (h : Writes j s)
    (hn : s.length < n) (rest : List Char) (ends : Ends rest) :
    readValue n (s ++ rest) = some (j, rest) := by
  obtain ⟨n, rfl⟩ : ∃ m, n = m + 1 := ⟨n - 1, by omega⟩
  match h with
  | .blank hc h =>
    rw [List.cons_append, readValue_blank hc]
    exact readValue_of_writes h (Nat.lt_of_succ_lt hn) rest ends
  | .null | .yes | .no | .noItems | .noMembers => rfl
  | .number literal =>
    obtain ⟨⟨c, cs, rfl, first⟩, reads⟩ := literal
    rw [List.cons_append, readValue_literal first, ← List.cons_append, reads rest ends]
    rfl
  | @Writes.string raw isRaw =>
    have reads := isRaw rest
    have text : quoted raw ++ rest = '"' :: (raw ++ '"' :: rest) := by simp [quoted]
    rw [text, readValue, skipSpace_cons (by decide)]
    simp [reads]
  | .array h =>
    have items := readItems_of_writes h (Nat.lt_of_succ_lt_succ hn) rest
    obtain ⟨c, t, skipped, start⟩ := h.start rest
    rw [List.cons_append, readValue_array, skipped, items]
    split
    · rename_i same
      obtain ⟨rfl, -⟩ := List.cons.inj same
      cases start
    · rfl
  | .object h =>
    have members := readMembers_of_writes h (Nat.lt_of_succ_lt_succ hn) rest
    obtain ⟨t, skipped⟩ := h.start rest
    rw [List.cons_append, readValue_object, skipped, members]
    rfl

/-- A text that writes the items of an array is read up to the bracket. -/
theorem readItems_of_writes {xs : List Json} {s : List Char} {n : Nat} (h : WritesItems xs s)
    (hn : s.length < n) (rest : List Char) :
    readItems n (s ++ rest) = some (xs, rest) := by
  obtain ⟨n, rfl⟩ : ∃ m, n = m + 1 := ⟨n - 1, by omega⟩
  match h with
  | @WritesItems.last x s b h hb =>
    simp only [List.length_append, List.length_cons, List.length_nil] at hn
    have ends : Ends (b ++ ']' :: rest) := ends_blanks hb (ends_of_mark (.inr (.inl rfl)))
    have value := readValue_of_writes (n := n) h (by omega) _ ends
    have text : s ++ (b ++ [']']) ++ rest = s ++ (b ++ ']' :: rest) := by simp
    rw [text, readItems, value]
    simp [skipSpace_blanks hb, skipSpace_cons (c := ']') (s := rest) (by decide)]
  | @WritesItems.more x xs s t h hs =>
    simp only [List.length_append, List.length_cons] at hn
    have ends : Ends (',' :: (t ++ rest)) := ends_of_mark (.inl rfl)
    have value := readValue_of_writes (n := n) h (by omega) _ ends
    have others := readItems_of_writes (n := n) hs (by omega) rest
    have text : s ++ ',' :: t ++ rest = s ++ ',' :: (t ++ rest) := by simp
    rw [text, readItems, value]
    simp [skipSpace_cons (c := ',') (s := t ++ rest) (by decide), others]

/-- A text that writes the members of an object is read up to the brace. -/
theorem readMembers_of_writes {ms : List (List Char × Json)} {s : List Char} {n : Nat}
    (h : WritesMembers ms s) (hn : s.length < n) (rest : List Char) :
    readMembers n (s ++ rest) = some (ms, rest) := by
  obtain ⟨n, rfl⟩ : ∃ m, n = m + 1 := ⟨n - 1, by omega⟩
  have named {name a u : List Char} (ha : Blanks a) (hm : IsRaw name) :
      skipSpace (a ++ (quoted name ++ ':' :: u)) = '"' :: (name ++ '"' :: ':' :: u) ∧
        readRaw (name ++ '"' :: ':' :: u) = some (name, ':' :: u) := by
    refine ⟨?_, hm _⟩
    rw [skipSpace_blanks ha]
    simp [quoted, skipSpace_cons (c := '"') (by decide)]
  match h with
  | @WritesMembers.last name a s b x ha hm h hb =>
    simp only [quoted, List.length_append, List.length_cons, List.length_nil] at hn
    have ends : Ends (b ++ '}' :: rest) := ends_blanks hb (ends_of_mark (.inr (.inr rfl)))
    have value := readValue_of_writes (n := n) h (by omega) _ ends
    have text : a ++ (quoted name ++ ':' :: (s ++ (b ++ ['}']))) ++ rest =
        a ++ (quoted name ++ ':' :: (s ++ (b ++ '}' :: rest))) := by simp
    obtain ⟨quote, reads⟩ := named (u := s ++ (b ++ '}' :: rest)) ha hm
    rw [text, readMembers, quote]
    simp [reads, skipSpace_cons (c := ':') (by decide), value, skipSpace_blanks hb,
      skipSpace_cons (c := '}') (s := rest) (by decide)]
  | @WritesMembers.more name a s t x ms ha hm h hs =>
    simp only [quoted, List.length_append, List.length_cons, List.length_nil] at hn
    have ends : Ends (',' :: (t ++ rest)) := ends_of_mark (.inl rfl)
    have value := readValue_of_writes (n := n) h (by omega) _ ends
    have others := readMembers_of_writes (n := n) hs (by omega) rest
    have text : a ++ (quoted name ++ ':' :: (s ++ ',' :: t)) ++ rest =
        a ++ (quoted name ++ ':' :: (s ++ ',' :: (t ++ rest))) := by simp
    obtain ⟨quote, reads⟩ := named (u := s ++ ',' :: (t ++ rest)) ha hm
    rw [text, readMembers, quote]
    simp [reads, skipSpace_cons (c := ':') (by decide), value,
      skipSpace_cons (c := ',') (s := t ++ rest) (by decide), others]

end

/-- **A text that writes a value is parsed as the value.** -/
theorem parse?_of_writes {j : Json} {s : List Char} (h : Writes j s) : parse? s = some j := by
  have whole := readValue_of_writes h (Nat.lt_succ_self _) [] nofun
  rw [List.append_nil] at whole
  unfold parse?
  rw [whole]
  rfl

/-! ## 4. The two forms -/

/-- In a value all strings, names and numbers are written as they are read. -/
inductive Written : Json → Prop where
  | null : Written null
  | bool (b : Bool) : Written (bool b)
  | number {literal : List Char} (h : IsLiteral literal) : Written (number literal)
  | string {raw : List Char} (h : IsRaw raw) : Written (string raw)
  | array {xs : List Json} (h : ∀ x ∈ xs, Written x) : Written (array xs)
  | object {ms : List (List Char × Json)} (names : ∀ m ∈ ms, IsRaw m.1)
      (values : ∀ m ∈ ms, Written m.2) : Written (object ms)

/-- **The compact form writes the value.** -/
theorem writes_compact {j : Json} (h : Written j) : Writes j j.compact := by
  induction h with
  | null => exact .null
  | bool b =>
    cases b with
    | true => exact .yes
    | false => exact .no
  | number h => exact .number h
  | string h => exact .string h
  | @array xs _ ih =>
    have items (x : Json) (xs : List Json) (ih : ∀ y ∈ x :: xs, Writes y y.compact) :
        WritesItems (x :: xs) (compact x ++ compactItems xs) := by
      induction xs generalizing x with
      | nil => exact .last (b := []) (ih x List.mem_cons_self) nofun
      | cons y ys rest =>
        obtain ⟨hx, hys⟩ := List.forall_mem_cons.mp ih
        exact .more hx (rest y hys)
    cases xs with
    | nil => exact .noItems
    | cons x xs => exact .array (items x xs ih)
  | @object ms names _ ih =>
    have members (m : List Char × Json) (ms : List (List Char × Json))
        (names : ∀ m' ∈ m :: ms, IsRaw m'.1) (ih : ∀ m' ∈ m :: ms, Writes m'.2 m'.2.compact) :
        WritesMembers (m :: ms) (quoted m.1 ++ ':' :: (compact m.2 ++ compactMembers ms)) := by
      induction ms generalizing m with
      | nil =>
        exact .last (a := []) (b := []) nofun (names m List.mem_cons_self)
          (ih m List.mem_cons_self) nofun
      | cons m' ms rest =>
        obtain ⟨hm, hms⟩ := List.forall_mem_cons.mp ih
        obtain ⟨raw, raws⟩ := List.forall_mem_cons.mp names
        exact .more (a := []) nofun raw hm (rest m' raws hms)
    cases ms with
    | nil => exact .noMembers
    | cons m ms => exact .object (members m ms names ih)

/-- **The form for readers writes the value**, at every level. -/
theorem writes_pretty {j : Json} (h : Written j) (level : Nat) : Writes j (j.prettyAt level) := by
  induction h generalizing level with
  | null => exact .null
  | bool b =>
    cases b with
    | true => exact .yes
    | false => exact .no
  | number h => exact .number h
  | string h => exact .string h
  | @array xs _ ih =>
    have deeper := blanks_newLine (level + 1)
    have items (x : Json) (xs : List Json)
        (ih : ∀ y ∈ x :: xs, ∀ level, Writes y (y.prettyAt level)) :
        WritesItems (x :: xs)
          (newLine (level + 1) ++ prettyAt (level + 1) x ++ prettyItems level xs) := by
      induction xs generalizing x with
      | nil =>
        exact .last ((ih x List.mem_cons_self _).blanks deeper) (blanks_newLine level)
      | cons y ys rest =>
        obtain ⟨hx, hys⟩ := List.forall_mem_cons.mp ih
        have others := rest y hys
        rw [List.append_assoc] at others
        exact .more ((hx _).blanks deeper) others
    cases xs with
    | nil => exact .noItems
    | cons x xs =>
      have body := items x xs ih
      rw [List.append_assoc] at body
      exact .array body
  | @object ms names _ ih =>
    have deeper := blanks_newLine (level + 1)
    have members (m : List Char × Json) (ms : List (List Char × Json))
        (names : ∀ m' ∈ m :: ms, IsRaw m'.1)
        (ih : ∀ m' ∈ m :: ms, ∀ level, Writes m'.2 (m'.2.prettyAt level)) :
        WritesMembers (m :: ms) (newLine (level + 1) ++
          (quoted m.1 ++ ':' :: (' ' :: prettyAt (level + 1) m.2 ++ prettyMembers level ms))) := by
      induction ms generalizing m with
      | nil =>
        exact .last deeper (names m List.mem_cons_self)
          (.blank (by decide) (ih m List.mem_cons_self _)) (blanks_newLine level)
      | cons m' ms rest =>
        obtain ⟨hm, hms⟩ := List.forall_mem_cons.mp ih
        obtain ⟨raw, raws⟩ := List.forall_mem_cons.mp names
        exact .more deeper raw (.blank (by decide) (hm _)) (rest m' raws hms)
    cases ms with
    | nil => exact .noMembers
    | cons m ms => exact .object (members m ms names ih)

/-- **A value is read back from its compact form.** -/
theorem parse?_compact {j : Json} (h : Written j) : parse? j.compact = some j :=
  parse?_of_writes (writes_compact h)

/-- **A value is read back from its form for readers.** -/
theorem parse?_pretty {j : Json} (h : Written j) : parse? (j.prettyAt 0) = some j :=
  parse?_of_writes (writes_pretty h 0)

end CodeInsight.Json
