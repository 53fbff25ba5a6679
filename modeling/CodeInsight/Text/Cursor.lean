/-!
# A place in a text

* a `Cursor` is a text cut in two: what was read, last character first, and what comes;
* stepping moves one character over the cut, so the text itself never changes
  (`Cursor.text_step`);
* `line` counts from 1 and `column` counts UTF-8 bytes from the last line feed, from 0.
-/

namespace CodeInsight.Text

/-- The number of bytes of a text in UTF-8. -/
def utf8Length (s : List Char) : Nat := s.foldr (fun c n => c.utf8Size + n) 0

@[simp] theorem utf8Length_nil : utf8Length [] = 0 := rfl

@[simp] theorem utf8Length_cons (c : Char) (s : List Char) :
    utf8Length (c :: s) = c.utf8Size + utf8Length s := by simp [utf8Length]

@[simp] theorem utf8Length_append (s t : List Char) :
    utf8Length (s ++ t) = utf8Length s + utf8Length t := by
  induction s with
  | nil => simp
  | cons c s ih => simp [ih, Nat.add_assoc]

/-- A place in a text: the characters before it, last first, and those after it. -/
structure Cursor where
  before : List Char
  after : List Char
  deriving DecidableEq

namespace Cursor

/-- The place in front of a text. -/
def start (s : List Char) : Cursor := ⟨[], s⟩

/-- The whole text. -/
def text (p : Cursor) : List Char := p.before.reverse ++ p.after

/-- The place one character on, with the character passed. -/
def step? (p : Cursor) : Option (Char × Cursor) :=
  match p.after with
  | [] => none
  | c :: rest => some (c, ⟨c :: p.before, rest⟩)

@[simp] theorem text_start (s : List Char) : (start s).text = s := by simp [start, text]

/-- **Stepping reads, it does not write**: the text stays the same. -/
theorem text_step {p q : Cursor} {c : Char} (h : p.step? = some (c, q)) : q.text = p.text := by
  unfold step? at h
  split at h
  · cases h
  · rename_i hr
    simp only [Option.some.injEq, Prod.mk.injEq] at h
    obtain ⟨rfl, rfl⟩ := h
    simp [text, hr]

/-- The number of characters before the place. -/
def offset (p : Cursor) : Nat := p.before.length

/-- The text from one place to a later one. -/
def textTo (p q : Cursor) : List Char := (q.before.take (q.offset - p.offset)).reverse

/-- Whether a line begins here: at the text's start and behind each line feed. -/
def atLineStart (p : Cursor) : Bool :=
  match p.before with
  | [] => true
  | c :: _ => c == '\n'

/-- What was read of the line the place is in, last character first. -/
def lineBefore (p : Cursor) : List Char := p.before.takeWhile (· != '\n')

/-- The line of the place, the first being 1. -/
def line (p : Cursor) : Nat := p.before.count '\n' + 1

/-- The byte offset of the place in its line. -/
def column (p : Cursor) : Nat := utf8Length p.lineBefore

/-- The place after as many characters of the class as follow. -/
def skipWhile (cls : Char → Bool) (p : Cursor) : Cursor :=
  ⟨(p.after.takeWhile cls).reverse ++ p.before, p.after.dropWhile cls⟩

theorem text_skipWhile (cls : Char → Bool) (p : Cursor) : (p.skipWhile cls).text = p.text := by
  simp [text, skipWhile]

end Cursor

end CodeInsight.Text
