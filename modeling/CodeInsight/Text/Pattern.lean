import CodeInsight.Text.Cursor
import CodeInsight.Text.Blank
import CodeInsight.Text.Word

/-!
# Patterns

* a `Pattern` describes a piece of text in its surroundings: single characters, runs of a class of
  characters, sequences, ordered alternatives, places (line start, word edge) and named parts whose
  places are kept;
* `Pattern.Reaches` says which pieces a pattern describes, with no order among them;
* `Pattern.run` goes through them in the order of preference (an alternative before the next, a
  greedy run longest first) until the rest of the search is content; `Pattern.matchAt?` takes the
  first, `Pattern.find?` the first from the left, `Pattern.findAll` all that do not overlap.

Only runs of single characters repeat, so every search ends by recursion on the pattern.
-/

namespace CodeInsight.Text

/-! ## 1. Patterns -/

/-- What a pattern may describe. The place of a part under `kept` is noted under its name. -/
inductive Pattern where
  | nothing
  | lineStart
  | wordEdge
  | one (cls : Char → Bool)
  | run (cls : Char → Bool) (greedy : Bool)
  | seq (p q : Pattern)
  | alt (p q : Pattern)
  | kept (name : String) (p : Pattern)

/-- The named parts of a match with the places where each begins and ends, the latest first. -/
abbrev Parts := List (String × Cursor × Cursor)

namespace Pattern

instance : Append Pattern := ⟨seq⟩

instance : OrElse Pattern := ⟨fun p q => alt p (q ())⟩

/-- Exactly the characters of `s`. -/
def text (s : String) : Pattern := s.toList.foldr (fun c p => seq (one (· == c)) p) nothing

/-- One of several characters. -/
def oneOf (s : String) : Pattern := one fun c => s.toList.contains c

/-- As many characters of the class as there are, then fewer. -/
def many (cls : Char → Bool) : Pattern := run cls true

/-- As `many`, at least one. -/
def many1 (cls : Char → Bool) : Pattern := seq (one cls) (many cls)

/-- The pattern if it is there, else nothing. -/
def optional (p : Pattern) : Pattern := alt p nothing

/-- Blanks, or none. -/
def blanks : Pattern := many isBlank

/-- At least one blank. -/
def gap : Pattern := many1 isBlank

/-- A name: at least one word character. -/
def word : Pattern := many1 isWord

/-- One of several words, the first that fits. -/
def anyText : List String → Pattern
  | [] => nothing
  | [s] => text s
  | s :: rest => alt (text s) (anyText rest)

end Pattern

/-! ## 2. Places -/

/-- Whether the character before the place is a word character. -/
def Cursor.wordBefore (p : Cursor) : Bool :=
  match p.before with
  | [] => false
  | c :: _ => isWord c

/-- Whether the character after the place is a word character. -/
def Cursor.wordAfter (p : Cursor) : Bool :=
  match p.after with
  | [] => false
  | c :: _ => isWord c

/-- Whether a word begins or ends here. -/
def Cursor.atWordEdge (p : Cursor) : Bool := p.wordBefore != p.wordAfter

/-- The places after none, one, two, … characters of the class, nearest first. -/
def Cursor.reach (cls : Char → Bool) : List Char → List Char → List Cursor
  | before, [] => [⟨before, []⟩]
  | before, c :: after =>
    ⟨before, c :: after⟩ :: if cls c then reach cls (c :: before) after else []

/-! ## 3. What a pattern describes -/

/-- `p.Reaches a b`: the text from place `a` to place `b` is one that `p` describes there. -/
inductive Pattern.Reaches : Pattern → Cursor → Cursor → Prop where
  | nothing (a : Cursor) : Reaches .nothing a a
  | lineStart {a : Cursor} (h : a.atLineStart = true) : Reaches .lineStart a a
  | wordEdge {a : Cursor} (h : a.atWordEdge = true) : Reaches .wordEdge a a
  | one {cls : Char → Bool} {a b : Cursor} {c : Char} (h : a.step? = some (c, b))
      (hc : cls c = true) : Reaches (.one cls) a b
  | run {cls : Char → Bool} {greedy : Bool} {a b : Cursor}
      (h : b ∈ Cursor.reach cls a.before a.after) : Reaches (.run cls greedy) a b
  | seq {p q : Pattern} {a b c : Cursor} (hp : Reaches p a b) (hq : Reaches q b c) :
      Reaches (.seq p q) a c
  | altLeft {p q : Pattern} {a b : Cursor} (h : Reaches p a b) : Reaches (.alt p q) a b
  | altRight {p q : Pattern} {a b : Cursor} (h : Reaches q a b) : Reaches (.alt p q) a b
  | kept {name : String} {p : Pattern} {a b : Cursor} (h : Reaches p a b) :
      Reaches (.kept name p) a b

/-! ## 4. Searching in the order of preference -/

/-- Tries the pieces the pattern describes at `a`, the preferred first, until `k` accepts the
    place behind one. -/
def Pattern.search {α : Type} : Pattern → Cursor → Parts → (Cursor → Parts → Option α) → Option α
  | .nothing, a, ps, k => k a ps
  | .lineStart, a, ps, k => if a.atLineStart then k a ps else none
  | .wordEdge, a, ps, k => if a.atWordEdge then k a ps else none
  | .one cls, a, ps, k =>
    match a.step? with
    | some (c, b) => if cls c then k b ps else none
    | none => none
  | .run cls greedy, a, ps, k =>
    let places := Cursor.reach cls a.before a.after
    (if greedy then places.reverse else places).findSome? (k · ps)
  | .seq p q, a, ps, k => p.search a ps fun b ps' => q.search b ps' k
  | .alt p q, a, ps, k =>
    match p.search a ps k with
    | some x => some x
    | none => q.search a ps k
  | .kept name p, a, ps, k => p.search a ps fun b ps' => k b ((name, a, b) :: ps')

/-- A match: where it begins, where it ends and its named parts. -/
structure Match where
  start : Cursor
  stop : Cursor
  parts : Parts

namespace Match

/-- The text matched. -/
def text (m : Match) : List Char := m.start.textTo m.stop

/-- The number of characters matched. -/
def length (m : Match) : Nat := m.stop.offset - m.start.offset

/-- Where a named part begins and ends, if the part took part in the match. -/
def span? (m : Match) (name : String) : Option (Cursor × Cursor) := m.parts.lookup name

/-- The text of a named part, if the part took part in the match. -/
def part? (m : Match) (name : String) : Option (List Char) :=
  (m.span? name).map fun span => span.1.textTo span.2

end Match

namespace Pattern

/-- The preferred match at a place. -/
def matchAt? (p : Pattern) (a : Cursor) : Option Match :=
  p.search a [] fun b ps => some ⟨a, b, ps⟩

/-- The matches from the left, each beginning where the one before ended or later. The first
    `skip` characters belong to a match already found. -/
def findAllFrom (p : Pattern) : Nat → List Char → List Char → List Match
  | 0, before, [] => (p.matchAt? ⟨before, []⟩).toList
  | _ + 1, _, [] => []
  | 0, before, c :: after =>
    match p.matchAt? ⟨before, c :: after⟩ with
    | some m => m :: findAllFrom p (m.length - 1) (c :: before) after
    | none => findAllFrom p 0 (c :: before) after
  | skip + 1, before, c :: after => findAllFrom p skip (c :: before) after

/-- All matches in a text that do not overlap, from the left. -/
def findAll (p : Pattern) (s : List Char) : List Match := p.findAllFrom 0 [] s

/-- The first match from the left at the place `before` | `after` or behind it. -/
def findFrom? (p : Pattern) : List Char → List Char → Option Match
  | before, [] => p.matchAt? ⟨before, []⟩
  | before, c :: after =>
    match p.matchAt? ⟨before, c :: after⟩ with
    | some m => some m
    | none => findFrom? p (c :: before) after

/-- The first match in a text, from the left. -/
def find? (p : Pattern) (s : List Char) : Option Match := p.findFrom? [] s

/-- Whether a text holds a match. -/
def occursIn (p : Pattern) (s : List Char) : Bool := (p.find? s).isSome

/-! ## 5. The search finds what the pattern describes -/

/-- **A search succeeds only at a place the pattern reaches**, and with what the continuation
    answers there. -/
theorem reaches_of_search {α : Type} (p : Pattern) (a : Cursor) (ps : Parts)
    (k : Cursor → Parts → Option α) (x : α) (h : p.search a ps k = some x) :
    ∃ b ps', p.Reaches a b ∧ k b ps' = some x := by
  induction p generalizing a ps k with
  | nothing => exact ⟨a, ps, .nothing a, h⟩
  | lineStart =>
    simp only [search] at h
    split at h
    · rename_i ha
      exact ⟨a, ps, .lineStart ha, h⟩
    · cases h
  | wordEdge =>
    simp only [search] at h
    split at h
    · rename_i ha
      exact ⟨a, ps, .wordEdge ha, h⟩
    · cases h
  | one cls =>
    simp only [search] at h
    split at h
    · rename_i c b hb
      split at h
      · rename_i hc
        exact ⟨b, ps, .one hb hc, h⟩
      · cases h
    · cases h
  | run cls greedy =>
    simp only [search] at h
    obtain ⟨b, hb, hk⟩ := List.exists_of_findSome?_eq_some h
    refine ⟨b, ps, .run ?_, hk⟩
    cases greedy
    · simpa using hb
    · simpa using hb
  | seq p q ihp ihq =>
    obtain ⟨b, ps', hp, hq⟩ := ihp a ps _ h
    obtain ⟨c, ps'', hq', hk⟩ := ihq b ps' k hq
    exact ⟨c, ps'', .seq hp hq', hk⟩
  | alt p q ihp ihq =>
    simp only [search] at h
    split at h
    · rename_i y hy
      obtain ⟨b, ps', hp, hk⟩ := ihp a ps k (hy.trans h)
      exact ⟨b, ps', .altLeft hp, hk⟩
    · obtain ⟨b, ps', hq, hk⟩ := ihq a ps k h
      exact ⟨b, ps', .altRight hq, hk⟩
  | kept name p ih =>
    obtain ⟨b, ps', hp, hk⟩ := ih a ps _ h
    exact ⟨b, _, .kept hp, hk⟩

/-- What is found at a place is described by the pattern there. -/
theorem reaches_of_matchAt? {p : Pattern} {a : Cursor} {m : Match}
    (h : p.matchAt? a = some m) : m.start = a ∧ p.Reaches a m.stop := by
  obtain ⟨b, ps', hp, hk⟩ := reaches_of_search p a [] _ m h
  simp only [Option.some.injEq] at hk
  subst hk
  exact ⟨rfl, hp⟩

end Pattern

end CodeInsight.Text
