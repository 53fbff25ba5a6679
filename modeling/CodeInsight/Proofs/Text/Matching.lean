import CodeInsight.Text.Pattern

/-!
# What stands around a named part of a match

* from the beginning of a match to its end a text is read (`Reaches.passes`), and what characters
  it holds or does not hold can be seen from the pattern (`avoids`, `Solid`);
* a pattern that names a part is cut in three by it (`around`): **what is read before the part, as
  the part and behind it** is what the three pieces describe (`around_of_mem_findAll`).
-/

namespace CodeInsight.Text

/-! ## 1. The text between two places -/

namespace Cursor

variable {a b c : Cursor} {s t : List Char}

/-- `a.Passes s b`: one comes from `a` to `b` by reading `s`. -/
structure Passes (a : Cursor) (s : List Char) (b : Cursor) : Prop where
  after : a.after = s ++ b.after
  before : b.before = s.reverse ++ a.before

namespace Passes

theorem refl (a : Cursor) : a.Passes [] a := ⟨rfl, rfl⟩

theorem trans (h : a.Passes s b) (h' : b.Passes t c) : a.Passes (s ++ t) c := by
  constructor
  · rw [h.after, h'.after, List.append_assoc]
  · rw [h'.before, h.before, List.reverse_append, List.append_assoc]

theorem eq_of_nil (h : a.Passes [] b) : b = a := by
  obtain ⟨before, after⟩ := a
  obtain ⟨rfl, rfl⟩ : after = b.after ∧ b.before = before := ⟨h.after, h.before⟩
  rfl

/-- The place behind what is read is one only. -/
theorem unique (h : a.Passes s b) (h' : a.Passes s c) : b = c := by
  obtain ⟨before, after⟩ := b
  obtain ⟨before', after'⟩ := c
  obtain rfl : before = before' := h.before.trans h'.before.symm
  obtain rfl : after = after' := List.append_cancel_left (h.after.symm.trans h'.after)
  rfl

/-- What is read is the text between the places. -/
theorem textTo (h : a.Passes s b) : a.textTo b = s := by
  have length : b.offset - a.offset = s.reverse.length := by
    have := congrArg List.length h.before
    rw [List.length_append] at this
    unfold offset
    omega
  rw [Cursor.textTo, length, h.before, List.take_left, List.reverse_reverse]

theorem text (h : a.Passes s b) : b.text = a.text := by
  rw [Cursor.text, Cursor.text, h.before, h.after]
  simp

end Passes

theorem passes_of_step? {ch : Char} (h : a.step? = some (ch, b)) : a.Passes [ch] b := by
  unfold step? at h
  split at h
  case h_1 => cases h
  case h_2 ch' rest ha =>
    cases h
    exact ⟨ha, rfl⟩

/-- A run reads characters of its class only. -/
theorem passes_of_mem_reach {cls : Char → Bool} {before after : List Char}
    (h : b ∈ reach cls before after) :
    ∃ s, (⟨before, after⟩ : Cursor).Passes s b ∧ ∀ ch ∈ s, cls ch = true := by
  induction after generalizing before with
  | nil =>
    rw [reach, List.mem_singleton] at h
    subst h
    exact ⟨[], .refl _, fun ch hch => nomatch hch⟩
  | cons ch after ih =>
    rw [reach, List.mem_cons] at h
    rcases h with rfl | further
    · exact ⟨[], .refl _, fun ch hch => nomatch hch⟩
    · split at further
      case isFalse => cases further
      case isTrue inClass =>
        obtain ⟨s, passes, all⟩ := ih further
        have first : Passes ⟨before, ch :: after⟩ [ch] ⟨ch :: before, after⟩ := ⟨rfl, rfl⟩
        exact ⟨ch :: s, first.trans passes, List.forall_mem_cons.mpr ⟨inClass, all⟩⟩

/-- No word goes on before a place if its last character is no word character. -/
theorem wordBefore_eq_false_iff :
    a.wordBefore = false ↔ ∀ ch ∈ a.before.head?, isWord ch = false := by
  rw [wordBefore]
  cases a.before with
  | nil => simp
  | cons ch before => simp

theorem wordAfter_eq_false_iff :
    a.wordAfter = false ↔ ∀ ch ∈ a.after.head?, isWord ch = false := by
  rw [wordAfter]
  cases a.after with
  | nil => simp
  | cons ch after => simp

end Cursor

/-! ## 2. What a pattern reads -/

namespace Pattern

variable {p q f i r : Pattern} {a b : Cursor} {ps ps' : Parts} {name : String}

/-- A pattern reads the text between the two places. -/
theorem Reaches.passes (h : p.Reaches a b) : a.Passes (a.textTo b) b := by
  suffices ∃ s, a.Passes s b by
    obtain ⟨s, passes⟩ := this
    rw [passes.textTo]
    exact passes
  induction h with
  | nothing | lineStart | wordEdge => exact ⟨[], .refl _⟩
  | one h _ => exact ⟨_, Cursor.passes_of_step? h⟩
  | run h =>
    obtain ⟨s, passes, -⟩ := Cursor.passes_of_mem_reach h
    exact ⟨s, passes⟩
  | seq _ _ ihp ihq =>
    obtain ⟨s, first⟩ := ihp
    obtain ⟨t, second⟩ := ihq
    exact ⟨s ++ t, first.trans second⟩
  | altLeft _ ih | altRight _ ih | kept _ ih => exact ih

/-- Two patterns one after the other read the one's text and then the other's. -/
theorem textTo_seq {c : Cursor} (hp : p.Reaches a b) (hq : q.Reaches b c) :
    a.textTo c = a.textTo b ++ b.textTo c :=
  (hp.passes.trans hq.passes).textTo

/-- Whether no text that the pattern describes holds the character. -/
def avoids (ch : Char) : Pattern → Bool
  | .nothing | .lineStart | .wordEdge => true
  | .one cls | .run cls _ => !cls ch
  | .seq p q | .alt p q => p.avoids ch && q.avoids ch
  | .kept _ p => p.avoids ch

theorem not_mem_of_avoids {ch : Char} (h : p.Reaches a b) (avoids : p.avoids ch = true) :
    ch ∉ a.textTo b := by
  induction h with
  | nothing | lineStart | wordEdge => simp [Cursor.textTo]
  | one h inClass =>
    rw [(Cursor.passes_of_step? h).textTo, List.mem_singleton]
    rintro rfl
    simp [Pattern.avoids, inClass] at avoids
  | run h =>
    obtain ⟨s, passes, all⟩ := Cursor.passes_of_mem_reach h
    rw [passes.textTo]
    intro there
    simp [Pattern.avoids, all ch there] at avoids
  | seq hp hq ihp ihq =>
    obtain ⟨first, second⟩ := Bool.and_eq_true_iff.mp avoids
    rw [textTo_seq hp hq, List.mem_append]
    rintro (there | there)
    · exact ihp first there
    · exact ihq second there
  | altLeft _ ih => exact ih (Bool.and_eq_true_iff.mp avoids).1
  | altRight _ ih => exact ih (Bool.and_eq_true_iff.mp avoids).2
  | kept _ ih => exact ih avoids

/-- Whether every text that the pattern describes holds a character that is not blank. -/
def Solid : Pattern → Prop
  | .one cls => ∀ ch, cls ch = true → isBlank ch = false
  | .seq p q => p.Solid ∨ q.Solid
  | .alt p q => p.Solid ∧ q.Solid
  | .kept _ p => p.Solid
  | _ => False

theorem exists_solid (h : p.Reaches a b) (solid : p.Solid) :
    ∃ ch ∈ a.textTo b, isBlank ch = false := by
  induction h with
  | nothing | lineStart | wordEdge | run => exact solid.elim
  | one h inClass =>
    rw [(Cursor.passes_of_step? h).textTo]
    exact ⟨_, List.mem_singleton_self _, solid _ inClass⟩
  | seq hp hq ihp ihq =>
    rw [textTo_seq hp hq]
    rcases solid with first | second
    · obtain ⟨ch, there, notBlank⟩ := ihp first
      exact ⟨ch, List.mem_append_left _ there, notBlank⟩
    · obtain ⟨ch, there, notBlank⟩ := ihq second
      exact ⟨ch, List.mem_append_right _ there, notBlank⟩
  | altLeft _ ih => exact ih solid.1
  | altRight _ ih => exact ih solid.2
  | kept _ ih => exact ih solid

/-- Whether the pattern fits at the beginning of a line only. -/
def beginsLine : Pattern → Bool
  | .lineStart => true
  | .seq p _ => p.beginsLine
  | .alt p q => p.beginsLine && q.beginsLine
  | .kept _ p => p.beginsLine
  | _ => false

theorem atLineStart_of_beginsLine (h : p.Reaches a b) (begins : p.beginsLine = true) :
    a.atLineStart = true := by
  induction h with
  | nothing | wordEdge | one | run => cases begins
  | lineStart h => exact h
  | seq _ _ ihp _ => exact ihp begins
  | altLeft _ ih => exact ih (Bool.and_eq_true_iff.mp begins).1
  | altRight _ ih => exact ih (Bool.and_eq_true_iff.mp begins).2
  | kept _ ih => exact ih begins

/-! ## 3. The parts of a match -/

/-- `p.Captures a ps b ps'`: a search for `p` that goes from `a` to `b` adds named parts to those
    it began with. -/
def Captures : Pattern → Cursor → Parts → Cursor → Parts → Prop
  | .seq p q, a, ps, c, ps'' => ∃ b ps', p.Captures a ps b ps' ∧ q.Captures b ps' c ps''
  | .alt p q, a, ps, b, ps' => p.Captures a ps b ps' ∨ q.Captures a ps b ps'
  | .kept name p, a, ps, b, ps' => ∃ inner, p.Captures a ps b inner ∧ ps' = (name, a, b) :: inner
  | p, a, ps, b, ps' => p.Reaches a b ∧ ps' = ps

theorem Captures.reaches (h : p.Captures a ps b ps') : p.Reaches a b := by
  induction p generalizing a ps b ps' with
  | nothing | lineStart | wordEdge | one | run => exact h.1
  | seq p q ihp ihq =>
    obtain ⟨_, _, hp, hq⟩ := h
    exact .seq (ihp hp) (ihq hq)
  | alt p q ihp ihq =>
    rcases h with hp | hq
    · exact .altLeft (ihp hp)
    · exact .altRight (ihq hq)
  | kept name p ih =>
    obtain ⟨_, hp, -⟩ := h
    exact .kept (ih hp)

/-- **A search hands its continuation the parts that its way captures.** -/
theorem captures_of_search {α : Type} {k : Cursor → Parts → Option α} {x : α}
    (h : p.search a ps k = some x) : ∃ b ps', p.Captures a ps b ps' ∧ k b ps' = some x := by
  induction p generalizing a ps k with
  | nothing => exact ⟨a, ps, ⟨.nothing a, rfl⟩, h⟩
  | lineStart =>
    obtain ⟨start, hk⟩ := Option.ite_none_right_eq_some.mp h
    exact ⟨a, ps, ⟨.lineStart start, rfl⟩, hk⟩
  | wordEdge =>
    obtain ⟨edge, hk⟩ := Option.ite_none_right_eq_some.mp h
    exact ⟨a, ps, ⟨.wordEdge edge, rfl⟩, hk⟩
  | one cls =>
    rw [search] at h
    cases ha : a.step? with
    | none =>
      rw [ha] at h
      cases h
    | some next =>
      rw [ha] at h
      obtain ⟨inClass, hk⟩ := Option.ite_none_right_eq_some.mp h
      exact ⟨_, ps, ⟨.one ha inClass, rfl⟩, hk⟩
  | run cls greedy =>
    obtain ⟨b, there, hk⟩ := List.exists_of_findSome?_eq_some h
    refine ⟨b, ps, ⟨.run ?_, rfl⟩, hk⟩
    cases greedy
    · exact there
    · exact List.mem_reverse.mp there
  | seq p q ihp ihq =>
    obtain ⟨b, ps', hp, hq⟩ := ihp h
    obtain ⟨c, ps'', hq', hk⟩ := ihq hq
    exact ⟨c, ps'', ⟨b, ps', hp, hq'⟩, hk⟩
  | alt p q ihp ihq =>
    rw [search] at h
    cases first : p.search a ps k with
    | some y =>
      rw [first] at h
      cases h
      obtain ⟨b, ps', hp, hk⟩ := ihp first
      exact ⟨b, ps', .inl hp, hk⟩
    | none =>
      rw [first] at h
      obtain ⟨b, ps', hq, hk⟩ := ihq h
      exact ⟨b, ps', .inr hq, hk⟩
  | kept name p ih =>
    obtain ⟨b, ps', hp, hk⟩ := ih h
    exact ⟨b, _, ⟨ps', hp, rfl⟩, hk⟩

/-- **A search fails only where nothing fits**: where the pattern reaches a place that the continuation
    accepts, it succeeds. -/
theorem isSome_search_of_reaches {α : Type} {k : Cursor → Parts → Option α} (h : p.Reaches a b)
    (accepts : ∀ ps, (k b ps).isSome = true) (ps : Parts) : (p.search a ps k).isSome = true := by
  induction h generalizing ps k with
  | nothing a => exact accepts ps
  | lineStart start =>
    rw [search, if_pos start]
    exact accepts ps
  | wordEdge edge =>
    rw [search, if_pos edge]
    exact accepts ps
  | one step inClass =>
    rw [search, step]
    dsimp only
    rw [if_pos inClass]
    exact accepts ps
  | @run cls greedy a b there =>
    rw [search, List.findSome?_isSome_iff]
    refine ⟨b, ?_, accepts ps⟩
    cases greedy
    · exact there
    · exact List.mem_reverse.mpr there
  | seq _ _ ihp ihq =>
    rw [search]
    exact ihp (fun ps' => ihq accepts ps') ps
  | altLeft _ ih =>
    obtain ⟨x, found⟩ := Option.isSome_iff_exists.mp (ih accepts ps)
    rw [search, found]
    rfl
  | altRight _ ih =>
    rw [search]
    split
    case h_1 => rfl
    case h_2 => exact ih accepts ps
  | @kept name p a b _ ih =>
    exact ih (k := fun b ps' => k b ((name, a, b) :: ps')) (fun _ => accepts _) ps

/-- There is a match at a place exactly if the pattern reaches some place from there. -/
theorem isSome_matchAt?_iff : (p.matchAt? a).isSome = true ↔ ∃ b, p.Reaches a b := by
  constructor
  · intro found
    obtain ⟨m, hm⟩ := Option.isSome_iff_exists.mp found
    exact ⟨m.stop, (reaches_of_matchAt? hm).2⟩
  · rintro ⟨b, h⟩
    exact isSome_search_of_reaches h (fun _ => rfl) []

/-- Whether a pattern names a part so. -/
def keeps (name : String) : Pattern → Bool
  | .seq p q | .alt p q => p.keeps name || q.keeps name
  | .kept other p => other == name || p.keeps name
  | _ => false

theorem lookup_of_captures (h : p.Captures a ps b ps') (keeps : p.keeps name = false) :
    ps'.lookup name = ps.lookup name := by
  induction p generalizing a ps b ps' with
  | nothing | lineStart | wordEdge | one | run => rw [h.2]
  | seq p q ihp ihq =>
    obtain ⟨_, _, hp, hq⟩ := h
    obtain ⟨first, second⟩ := Bool.or_eq_false_iff.mp keeps
    rw [ihq hq second, ihp hp first]
  | alt p q ihp ihq =>
    obtain ⟨first, second⟩ := Bool.or_eq_false_iff.mp keeps
    rcases h with hp | hq
    · exact ihp hp first
    · exact ihq hq second
  | kept other p ih =>
    obtain ⟨inner, hp, rfl⟩ := h
    obtain ⟨different, deeper⟩ := Bool.or_eq_false_iff.mp keeps
    have apart : (name == other) = false := by
      rw [beq_eq_false_iff_ne] at different ⊢
      exact different.symm
    rw [List.lookup_cons, apart]
    exact ih hp deeper

/-- A pattern that names one part of a sequence so, cut in three: what is before the part, the part,
    and what is behind it. -/
def around (name : String) : Pattern → Option (Pattern × Pattern × Pattern)
  | .kept other p => if other = name then some (.nothing, p, .nothing) else none
  | .seq p q =>
    match p.around name with
    | some (f, i, r) => if q.keeps name then none else some (f, i, .seq r q)
    | none => (q.around name).map fun cut => (.seq p cut.1, cut.2.1, cut.2.2)
  | _ => none

/-- A named part is kept where its piece is read, the first piece before it and the third behind. -/
theorem around_of_captures (cut : p.around name = some (f, i, r)) (h : p.Captures a ps b ps') :
    ∃ x y, ps'.lookup name = some (x, y) ∧ f.Reaches a x ∧ i.Reaches x y ∧ r.Reaches y b := by
  induction p generalizing f i r a ps b ps' with
  | nothing | lineStart | wordEdge | one | run | alt => cases cut
  | kept other p ih =>
    obtain ⟨inner, hp, rfl⟩ := h
    rw [around] at cut
    split at cut
    case isFalse => cases cut
    case isTrue same =>
      cases cut
      subst same
      exact ⟨a, b, List.lookup_cons_self, .nothing a, hp.reaches, .nothing b⟩
  | seq p q ihp ihq =>
    obtain ⟨_, _, hp, hq⟩ := h
    rw [around] at cut
    split at cut
    case h_1 f' i' r' inFirst =>
      split at cut
      case isTrue => cases cut
      case isFalse onlyFirst =>
        cases cut
        obtain ⟨x, y, kept, before, part, behind⟩ := ihp inFirst hp
        have still := lookup_of_captures hq (Bool.eq_false_iff.mpr onlyFirst)
        exact ⟨x, y, still.trans kept, before, part, .seq behind hq.reaches⟩
    case h_2 =>
      obtain ⟨⟨f', i', r'⟩, inSecond, same⟩ := Option.map_eq_some_iff.mp cut
      cases same
      obtain ⟨x, y, kept, before, part, behind⟩ := ihq inSecond hq
      exact ⟨x, y, kept, .seq hp.reaches before, part, behind⟩

/-! ## 4. All matches in a text -/

theorem matchAt?_of_mem_findAllFrom {m : Match} {skip : Nat} {before after : List Char}
    (h : m ∈ p.findAllFrom skip before after) :
    p.matchAt? m.start = some m ∧ m.start.text = (⟨before, after⟩ : Cursor).text := by
  have here {at_ : Cursor} (hm : p.matchAt? at_ = some m) :
      p.matchAt? m.start = some m ∧ m.start.text = at_.text := by
    obtain ⟨rfl, -⟩ := reaches_of_matchAt? hm
    exact ⟨hm, rfl⟩
  induction after generalizing skip before with
  | nil =>
    cases skip with
    | zero => exact here (Option.mem_toList.mp h)
    | succ skip => cases h
  | cons ch after ih =>
    have further {skip : Nat} (hm : m ∈ p.findAllFrom skip (ch :: before) after) :
        p.matchAt? m.start = some m ∧ m.start.text = (⟨before, ch :: after⟩ : Cursor).text := by
      obtain ⟨found, same⟩ := ih hm
      refine ⟨found, same.trans ?_⟩
      simp [Cursor.text]
    cases skip with
    | succ skip => exact further h
    | zero =>
      rw [findAllFrom] at h
      split at h
      case h_1 m' hm' =>
        rcases List.mem_cons.mp h with rfl | behind
        · exact here hm'
        · exact further behind
      case h_2 => exact further h

/-- **A match in a text with the part it names**: where the part begins and ends, and what is read
    before it, as it and behind it. -/
theorem around_of_mem_findAll {m : Match} {s : List Char} (h : m ∈ p.findAll s)
    (cut : p.around name = some (f, i, r)) :
    m.start.text = s ∧ ∃ x y, m.span? name = some (x, y) ∧ f.Reaches m.start x ∧
      i.Reaches x y ∧ r.Reaches y m.stop := by
  obtain ⟨found, same⟩ := matchAt?_of_mem_findAllFrom h
  obtain ⟨b, ps, captures, hk⟩ := captures_of_search found
  have whole : m = ⟨m.start, b, ps⟩ := (Option.some.inj hk).symm
  obtain ⟨x, y, kept, before, part, behind⟩ := around_of_captures cut captures
  rw [whole]
  exact ⟨same, x, y, kept, before, part, behind⟩

end Pattern

end CodeInsight.Text
