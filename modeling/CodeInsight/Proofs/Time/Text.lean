import CodeInsight.Proofs.Json.Decoding
import CodeInsight.Proofs.Time.Calendar
import CodeInsight.Time.Reader

/-!
# Instants are read as they are written

* each part of the text of an instant is read back, up to the mark behind it: numbers of a fixed
  width (`readPair?_padded`), years with and without a sign (`readYear?_yearText`), and fractions
  (`readFraction?_fractionText`);
* a leap second within a minute has the text of the second after (`text_civil`);
* **the text of an instant is read as the one that the calendar has for it** (`read?_text`), in
  years beyond four digits and in leap seconds too.
-/

namespace CodeInsight.Instant

open CodeInsight.Text

/-! ## 1. Numbers and marks -/

/-- A mark is neither a digit nor blank. -/
def isMark (c : Char) : Bool := !c.isDigit && !isBlank c

theorem not_isBlank_of_isDigit {c : Char} (h : c.isDigit = true) : isBlank c = false := by
  simp only [Char.isDigit, Bool.and_eq_true, decide_eq_true_eq] at h
  have low : 48 ≤ c.toNat := h.1
  have high : c.toNat ≤ 57 := h.2
  unfold isBlank
  simp
  omega

theorem trimStart_cons {c : Char} {s : List Char} (h : isBlank c = false) :
    trimStart (c :: s) = c :: s := by
  simp [trimStart, h]

/-- Digits are read up to what is none. -/
theorem readNumber?_digits {width : Nat} {ds rest : List Char} (some' : ds ≠ [])
    (digits : ∀ c ∈ ds, c.isDigit = true) (short : ds.length ≤ width)
    (ends : ∀ c ∈ rest.head?, c.isDigit = false) :
    readNumber? width (ds ++ rest) = some (digitsFrom 0 ds, rest) := by
  have taken : ((ds ++ rest).take width).takeWhile Char.isDigit = ds := by
    rw [List.take_append, List.take_of_length_le short]
    refine takeWhile_digits digits fun c hc => ?_
    cases hw : width - ds.length with
    | zero =>
      rw [hw] at hc
      cases hc
    | succ k =>
      rw [hw] at hc
      cases rest with
      | nil => cases hc
      | cons d rest => exact ends c hc
  unfold readNumber?
  rw [taken]
  simp [some', digitsFrom]

theorem trimStart_digits {ds rest : List Char} (some' : ds ≠ [])
    (digits : ∀ c ∈ ds, c.isDigit = true) : trimStart (ds ++ rest) = ds ++ rest := by
  obtain ⟨d, ds, rfl⟩ := List.exists_cons_of_ne_nil some'
  exact trimStart_cons (not_isBlank_of_isDigit (digits d List.mem_cons_self))

theorem readPair?_padded {n : Nat} {c : Char} {rest : List Char} (h : n < 100)
    (mark : isMark c = true) : readPair? (padded 2 n ++ c :: rest) = some (n, c :: rest) := by
  have noDigit : ∀ d ∈ (c :: rest).head?, d.isDigit = false := by
    rintro d ⟨⟩
    simp [isMark] at mark
    exact mark.1
  unfold readPair?
  rw [trimStart_digits padded_ne_nil isDigit_padded, readNumber?_digits padded_ne_nil isDigit_padded
    (Nat.le_of_eq (length_padded (by decide) h)) noDigit, value_padded]

theorem passMark?_cons {c : Char} {rest : List Char} (mark : isMark c = true) :
    passMark? c (c :: rest) = some rest := by
  have visible : isBlank c = false := by
    simp [isMark] at mark
    exact mark.2
  simp [passMark?, trimStart_cons visible]

/-! ## 2. Dates -/

/-- **A year is read as it is written**, whatever its sign. -/
theorem readYear?_yearText (year : Int) (rest : List Char) :
    readYear? (yearText year ++ '-' :: rest) = some (year, '-' :: rest) := by
  have noDigit : ∀ d ∈ ('-' :: rest).head?, d.isDigit = false := by
    rintro d ⟨⟩
    decide
  have signed : readNumber? (padded 4 year.natAbs ++ '-' :: rest).length
      (padded 4 year.natAbs ++ '-' :: rest) = some (year.natAbs, '-' :: rest) := by
    rw [readNumber?_digits padded_ne_nil isDigit_padded (by simp) noDigit, value_padded]
  unfold yearText
  split
  case isTrue four =>
    have number : readNumber? 4 (padded 4 year.toNat ++ '-' :: rest) =
        some (year.toNat, '-' :: rest) := by
      have short : (padded 4 year.toNat).length = 4 := length_padded (by decide) (by omega)
      rw [readNumber?_digits padded_ne_nil isDigit_padded (Nat.le_of_eq short) noDigit,
        value_padded]
    have some' : padded 4 year.toNat ≠ [] := padded_ne_nil
    obtain ⟨d, ds, hd⟩ := List.exists_cons_of_ne_nil some'
    have first : d ∈ padded 4 year.toNat := by
      rw [hd]
      exact List.mem_cons_self
    have digit : d.isDigit = true := isDigit_padded d first
    unfold readYear?
    rw [trimStart_digits padded_ne_nil isDigit_padded]
    have value : ((year.toNat : Nat) : Int) = year := by omega
    rw [hd, List.cons_append] at number ⊢
    split
    · rename_i same
      cases (List.cons.inj same).1
      cases digit
    · rename_i same
      cases (List.cons.inj same).1
      cases digit
    · rw [number]
      simp [value]
  case isFalse =>
    by_cases negative : year < 0
    · have value : -((year.natAbs : Nat) : Int) = year := by omega
      rw [if_pos negative, List.cons_append]
      unfold readYear?
      rw [trimStart_cons (by decide)]
      show (readNumber? _ (padded 4 year.natAbs ++ '-' :: rest)).map
        (fun r => (-(r.1 : Int), r.2)) = _
      rw [signed, Option.map_some, value]
    · have value : ((year.natAbs : Nat) : Int) = year := by omega
      rw [if_neg negative, List.cons_append]
      unfold readYear?
      rw [trimStart_cons (by decide)]
      show (readNumber? _ (padded 4 year.natAbs ++ '-' :: rest)).map
        (fun r => ((r.1 : Int), r.2)) = _
      rw [signed, Option.map_some, value]

theorem readDate?_text (date : Date) (month : date.month < 100) (day : date.day < 100)
    {c : Char} (mark : isMark c = true) (rest : List Char) :
    readDate? (yearText date.year ++ '-' :: (padded 2 date.month ++ '-' ::
      (padded 2 date.day ++ c :: rest))) = some (date, c :: rest) := by
  simp [readDate?, readYear?_yearText, passMark?_cons (c := '-') (by decide),
    readPair?_padded month (c := '-') (by decide), readPair?_padded day mark]

/-! ## 3. Times of day -/

/-- **A fraction is read as it is written.** -/
theorem readFraction?_fractionText {nano : Nat} (h : nano < nanosPerSecond) (rest : List Char) :
    readFraction? (fractionText nano ++ 'Z' :: rest) = some (nano, 'Z' :: rest) := by
  have noDigit : ∀ d ∈ ('Z' :: rest).head?, d.isDigit = false := by
    rintro d ⟨⟩
    decide
  have digits (width n : Nat) (hw : 0 < width) (few : width ≤ 9) (hn : n < 10 ^ width)
      (value : n * powerOfTen (9 - width) = nano) :
      readFraction? ('.' :: padded width n ++ 'Z' :: rest) = some (nano, 'Z' :: rest) := by
    have length := length_padded hw hn
    have point (s : List Char) : readFraction? ('.' :: s) =
        let ds := (s.takeWhile Char.isDigit).take 9
        if ds.isEmpty then none
        else some (digitsFrom 0 ds * powerOfTen (9 - ds.length), s.dropWhile Char.isDigit) := rfl
    rw [List.cons_append, point, takeWhile_digits isDigit_padded noDigit,
      dropWhile_digits isDigit_padded noDigit, List.take_of_length_le (by omega)]
    simp [padded_ne_nil, value_padded, length, value]
  have bound : nano < 1000000000 := h
  unfold fractionText
  split
  case isTrue zero =>
    subst zero
    rfl
  split
  case isTrue millis =>
    refine digits 3 (nano / 1000000) (by decide) (by decide) (by omega) ?_
    show nano / 1000000 * 1000000 = nano
    omega
  split
  case isTrue micros =>
    refine digits 6 (nano / 1000) (by decide) (by decide) (by omega) ?_
    show nano / 1000 * 1000 = nano
    omega
  case isFalse =>
    refine digits 9 nano (by decide) (by decide) (by omega) ?_
    show nano * 1 = nano
    omega

theorem isMark_head?_fractionText (nano : Nat) (rest : List Char) :
    ∃ c t, fractionText nano ++ 'Z' :: rest = c :: t ∧ isMark c = true := by
  unfold fractionText
  split
  · exact ⟨'Z', _, rfl, by decide⟩
  split
  · exact ⟨'.', _, rfl, by decide⟩
  split
  · exact ⟨'.', _, rfl, by decide⟩
  · exact ⟨'.', _, rfl, by decide⟩

/-- **A time of day is read as it is written**, its last second with a second of nanoseconds more as
    second 60. -/
theorem readTime?_text {second nano : Nat} (inDay : second < 86400)
    (holds : nano < nanosPerSecond ∨ nano < 2 * nanosPerSecond ∧ second % 60 = 59)
    (rest : List Char) :
    let leap := if nanosPerSecond ≤ nano then 1 else 0
    readTime? (padded 2 (second / 3600) ++ ':' :: (padded 2 (second / 60 % 60) ++ ':' ::
      (padded 2 (second % 60 + leap) ++
        (fractionText (nano - leap * nanosPerSecond) ++ 'Z' :: rest)))) =
      some (second, nano, 'Z' :: rest) := by
  intro leap
  have within : nano - leap * nanosPerSecond < nanosPerSecond := by
    unfold leap
    split <;> omega
  obtain ⟨c, t, text, mark⟩ :=
    isMark_head?_fractionText (nano - leap * nanosPerSecond) rest
  have fraction := readFraction?_fractionText within rest
  have small : second % 60 + leap < 100 := by
    unfold leap
    split <;> omega
  rw [text] at fraction ⊢
  simp only [readTime?, Option.bind_eq_bind,
    readPair?_padded (n := second / 3600) (c := ':') (by omega) (by decide), Option.bind_some,
    passMark?_cons (c := ':') (by decide),
    readPair?_padded (n := second / 60 % 60) (c := ':') (by omega) (by decide),
    readPair?_padded small mark, fraction]
  have inRange : ¬ (23 < second / 3600 ∨ 59 < second / 60 % 60 ∨ 60 < second % 60 + leap) := by
    unfold leap
    split <;> omega
  rw [if_neg inRange]
  by_cases late : nanosPerSecond ≤ nano
  · have one : leap = 1 := if_pos late
    rw [one, if_pos (by omega)]
    have whole : second / 3600 * 3600 + second / 60 % 60 * 60 + 59 = second := by omega
    have all : nano - 1 * nanosPerSecond + nanosPerSecond = nano := by omega
    rw [whole, all]
    rfl
  · have none' : leap = 0 := if_neg late
    rw [none', if_neg (by omega)]
    have whole : second / 3600 * 3600 + second / 60 % 60 * 60 + (second % 60 + 0) = second := by
      omega
    have all : nano - 0 * nanosPerSecond = nano := by omega
    rw [whole, all]
    rfl

/-! ## 4. Instants -/

/-- **A leap second within a minute is written as the second after**: it has no text of its own. -/
theorem text_civil (t : Instant) : t.civil.text = t.text := by
  by_cases civil : t.isCivil = true
  · rw [civil_of_isCivil civil]
  have within := civil
  rw [isCivil_iff, not_or] at within
  obtain ⟨late, inMinute⟩ := within
  have held := t.nano_lt
  have second : t.civil.second = t.second + 1 := by rw [Instant.civil, dif_neg civil]
  have nano : t.civil.nano = t.nano - nanosPerSecond := by rw [Instant.civil, dif_neg civil]
  have day : t.civil.dayNumber = t.dayNumber := by
    unfold dayNumber secondsPerDay
    omega
  have inDay : t.civil.secondOfDay = t.secondOfDay + 1 := by
    unfold secondOfDay secondsPerDay
    omega
  -- the minute goes on, so only the second of the minute changes
  have seconds : t.secondOfDay % 60 ≠ 59 := by
    unfold secondOfDay secondsPerDay
    omega
  have hours : (t.secondOfDay + 1) / 3600 = t.secondOfDay / 3600 := by omega
  have minutes : (t.secondOfDay + 1) / 60 % 60 = t.secondOfDay / 60 % 60 := by omega
  have counted : (t.secondOfDay + 1) % 60 = t.secondOfDay % 60 + 1 := by omega
  have noLeap : ¬ nanosPerSecond ≤ t.nano - nanosPerSecond := by omega
  have leap : nanosPerSecond ≤ t.nano := by omega
  unfold text
  simp only [day, inDay, nano, hours, minutes, counted, if_neg noLeap, if_pos leap, Nat.add_zero,
    Nat.zero_mul, Nat.one_mul, Nat.sub_zero]

/-- The text of an instant that the calendar has is read as the instant. -/
theorem read?_text_of_isCivil {t : Instant} (civil : t.isCivil = true) : read? t.text = some t := by
  obtain ⟨there, number, -, month, day⟩ := Calendar.dateOfDay_spec t.dayNumber
  have bounds := t.second_bounds
  have held := t.nano_lt
  have holds := isCivil_iff.mp civil
  have seconds : (t.secondOfDay : Int) = t.second % 86400 := by
    unfold secondOfDay secondsPerDay
    omega
  have inDay : t.secondOfDay < 86400 := by omega
  have leap : t.nano < nanosPerSecond ∨
      t.nano < 2 * nanosPerSecond ∧ t.secondOfDay % 60 = 59 := by
    rcases holds with regular | last
    · exact .inl regular
    · exact .inr ⟨held, by omega⟩
  have date := readDate?_text (Calendar.dateOfDay t.dayNumber) (by omega) (by omega) (c := 'T')
    (by decide)
  have time := readTime?_text inDay leap []
  have here : ((Calendar.dateOfDay t.dayNumber).dayNumber - Calendar.daysBefore 1970) *
      secondsPerDay + (t.secondOfDay : Int) = t.second := by
    rw [number, seconds]
    unfold dayNumber secondsPerDay
    omega
  have universal : readOffset? (trimStart ['Z']) = some (0, []) := by decide
  have instant : ofLocal? (Calendar.dateOfDay t.dayNumber) t.secondOfDay t.nano 0 = some t := by
    unfold ofLocal?
    rw [here, there]
    simp [inBounds, bounds, of?_self civil]
  unfold read? text
  simp only [Option.bind_eq_bind]
  rw [date, Option.bind_some]
  show (readTime? _).bind _ = _
  rw [time]
  simp only [Option.bind_some, universal, instant]
  rfl

/-- **The text of an instant is read as the instant that the calendar has for it.** -/
theorem read?_text (t : Instant) : read? t.text = some t.civil := by
  rw [← text_civil, read?_text_of_isCivil t.isCivil_civil]

/-- The text of an instant has only plain signs. -/
theorem isPlain_text (t : Instant) : ∀ c ∈ t.text, Json.isPlain c = true := by
  have digits {width n : Nat} : ∀ c ∈ padded width n, Json.isPlain c = true :=
    fun c hc => Json.isPlain_of_isDigit (isDigit_padded c hc)
  have year (y : Int) : ∀ c ∈ yearText y, Json.isPlain c = true := by
    unfold yearText
    split
    · exact digits
    · refine List.forall_mem_cons.mpr ⟨?_, digits⟩
      split <;> decide
  have fraction (nano : Nat) : ∀ c ∈ fractionText nano, Json.isPlain c = true := by
    unfold fractionText
    split
    · exact List.forall_mem_nil _
    split
    · exact List.forall_mem_cons.mpr ⟨by decide, digits⟩
    split
    · exact List.forall_mem_cons.mpr ⟨by decide, digits⟩
    · exact List.forall_mem_cons.mpr ⟨by decide, digits⟩
  intro c hc
  simp only [text, List.mem_append, List.mem_cons, List.not_mem_nil, or_false] at hc
  rcases hc with h | rfl | h | rfl | h | rfl | h | rfl | h | rfl | h | h | rfl
  · exact year _ c h
  all_goals first | exact digits c h | exact fraction _ c h | decide

end CodeInsight.Instant
