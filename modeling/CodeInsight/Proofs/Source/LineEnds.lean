import CodeInsight.Proofs.Source.Declared
import CodeInsight.Proofs.Source.Extents
import CodeInsight.Proofs.Text.Returns
import Mathlib.Data.List.Forall2

/-!
# Symbols and line ends

* with returns in front of its line feeds a text falls into the same lines
  (`pieces_withReturns`, `lines_withReturns`);
* a declaration in it extends as far, by indentation maybe to the return behind its last line
  (`extentAt_withReturns`);
* every pattern of a declaration is steady, so **a file has the same symbols whatever ends its
  lines**, but for the line ends in their signatures (`symbolsIn_withReturns`).
-/

namespace CodeInsight.Text

/-! ## 1. Lines -/

/-- Pieces with a return at the end of each but the last. -/
def returnedPieces : List (List Char) → List (List Char)
  | [] => []
  | [last] => [last]
  | piece :: next :: rest => (piece ++ ['\r']) :: returnedPieces (next :: rest)

section Lines

variable {s : List Char} {ps : List (List Char)}

/-- **With returns a text is cut into the same pieces**, each but the last with a return. -/
theorem pieces_withReturns (s : List Char) :
    pieces '\n' (withReturns s) = returnedPieces (pieces '\n' s) := by
  induction s with
  | nil => rfl
  | cons c s ih =>
    obtain ⟨first, more, cut⟩ := exists_pieces '\n' s
    by_cases feed : c = '\n'
    · subst feed
      rw [withReturns_break, pieces_cons (by decide) (pieces_sep _ _), ih, pieces_sep, cut]
      rfl
    · rw [withReturns_cons s feed, pieces_cons feed cut]
      rw [cut] at ih
      cases more with
      | nil => exact pieces_cons feed ih
      | cons next rest => exact pieces_cons feed ih

/-- The lines do not show what ends them. -/
theorem endLines_returnedPieces (free : ∀ p ∈ ps, '\r' ∉ p) :
    endLines (returnedPieces ps) = endLines ps := by
  induction ps with
  | nil => rfl
  | cons p ps ih =>
    obtain ⟨first, others⟩ := List.forall_mem_cons.mp free
    cases ps with
    | nil => rfl
    | cons next rest =>
      have same : dropReturn (p ++ ['\r']) = dropReturn p := by
        have none : p.getLast? ≠ some '\r' := fun last => first (List.mem_of_getLast? last)
        simp [dropReturn, none]
      obtain ⟨head, tail, shape⟩ : ∃ head tail, returnedPieces (next :: rest) = head :: tail := by
        cases rest with
        | nil => exact ⟨_, _, rfl⟩
        | cons next' rest => exact ⟨_, _, rfl⟩
      rw [returnedPieces, endLines, ← ih others, shape, endLines, same]

theorem mem_of_mem_pieces {d c : Char} {p : List Char} (hp : p ∈ pieces d s) (hc : c ∈ p) :
    c ∈ s := by
  induction s generalizing p with
  | nil =>
    simp only [pieces, List.mem_singleton] at hp
    subst hp
    cases hc
  | cons x s ih =>
    obtain ⟨first, more, cut⟩ := exists_pieces d s
    by_cases same : x = d
    · subst same
      rw [pieces_sep] at hp
      rcases List.mem_cons.mp hp with rfl | hp
      · cases hc
      · exact List.mem_cons_of_mem _ (ih hp hc)
    · rw [pieces_cons same cut] at hp
      rw [cut] at ih
      rcases List.mem_cons.mp hp with rfl | hp
      · rcases List.mem_cons.mp hc with rfl | hc
        · exact List.mem_cons_self
        · exact List.mem_cons_of_mem _ (ih List.mem_cons_self hc)
      · exact List.mem_cons_of_mem _ (ih (List.mem_cons_of_mem _ hp) hc)

/-- **A text without returns has the same lines with them.** -/
theorem lines_withReturns (free : '\r' ∉ s) : lines (withReturns s) = lines s := by
  rw [lines, pieces_withReturns]
  exact endLines_returnedPieces fun p hp there => free (mem_of_mem_pieces hp there)

/-- The first pieces with returns, joined again, are the first pieces joined, with returns and maybe
    one more behind the last. -/
theorem joinWith_returnedPieces (free : ∀ p ∈ ps, '\n' ∉ p) (n : Nat) :
    ∃ tail, (tail = [] ∨ tail = ['\r']) ∧ joinWith '\n' ((returnedPieces ps).take (n + 1)) =
      withReturns (joinWith '\n' (ps.take (n + 1))) ++ tail := by
  induction ps generalizing n with
  | nil => exact ⟨[], .inl rfl, by simp [returnedPieces, joinWith, List.intercalate]⟩
  | cons p ps ih =>
    obtain ⟨first, others⟩ := List.forall_mem_cons.mp free
    cases ps with
    | nil => exact ⟨[], .inl rfl, by simp [returnedPieces, withReturns_of_not_mem first]⟩
    | cons next rest =>
      cases n with
      | zero => exact ⟨['\r'], .inr rfl, by simp [returnedPieces, withReturns_of_not_mem first]⟩
      | succ n =>
        obtain ⟨tail, ends, joined⟩ := ih others n
        refine ⟨tail, ends, ?_⟩
        have some : (next :: rest).take (n + 1) ≠ [] := by simp
        have some' : (returnedPieces (next :: rest)).take (n + 1) ≠ [] := by
          cases rest with
          | nil => simp [returnedPieces]
          | cons next' rest => simp [returnedPieces]
        rw [returnedPieces, List.take_succ_cons, List.take_succ_cons,
          joinWith_cons_of_ne_nil _ _ some', joined, joinWith_cons_of_ne_nil _ _ some,
          withReturns_append, withReturns_of_not_mem first]
        simp

end Lines

end CodeInsight.Text

namespace CodeInsight.Source

open CodeInsight.Text Pattern

/-! ## 2. Extents -/

section Extents

variable {column : Nat} {p : List Char}

theorem bodyExtent_withReturns (depth : Nat) (s : List Char) :
    bodyExtent depth (withReturns s) = withReturns (bodyExtent depth s) := by
  induction s generalizing depth with
  | nil => rfl
  | cons c s ih =>
    by_cases feed : c = '\n'
    · subst feed
      simp [bodyExtent, ih]
    · rw [withReturns_cons s feed, bodyExtent, bodyExtent]
      split
      case isTrue => rw [ih, withReturns_cons _ feed]
      case isFalse =>
        split
        case isTrue =>
          split
          case isTrue => rw [withReturns_cons _ feed]; rfl
          case isFalse => rw [ih, withReturns_cons _ feed]
        case isFalse => rw [ih, withReturns_cons _ feed]

theorem headExtent_withReturns (groups : Int32) (s : List Char) :
    headExtent groups (withReturns s) = withReturns (headExtent groups s) := by
  induction s generalizing groups with
  | nil => rfl
  | cons c s ih =>
    by_cases feed : c = '\n'
    · subst feed
      simp [headExtent, ih]
    · rw [withReturns_cons s feed, headExtent, headExtent]
      split
      case isTrue => rw [ih, withReturns_cons _ feed]
      case isFalse =>
        split
        case isTrue => rw [ih, withReturns_cons _ feed]
        case isFalse =>
          split
          case isTrue => rw [withReturns_cons _ feed]; rfl
          case isFalse =>
            split
            case isTrue => rw [bodyExtent_withReturns, withReturns_cons _ feed]
            case isFalse => rw [ih, withReturns_cons _ feed]

/-- A line and the same line with a return behind it, or without one. -/
def SameLine (p q : List Char) : Prop := q = p ∨ q = p ++ ['\r']

theorem sameLine_returnedPieces (ps : List (List Char)) :
    List.Forall₂ SameLine ps (returnedPieces ps) := by
  induction ps with
  | nil => exact .nil
  | cons p ps ih =>
    cases ps with
    | nil => exact .cons (.inl rfl) .nil
    | cons next rest => exact .cons (.inr rfl) ih

/-- A return behind a line is blank, so it does not count. -/
theorem SameLine.allBlank {q : List Char} (h : SameLine p q) : allBlank p = allBlank q := by
  rcases h with rfl | rfl
  · rfl
  · have blank : isBlank '\r' = true := rfl
    simp [Text.allBlank, blank]

theorem SameLine.inBlock {q : List Char} (h : SameLine p q) (column : Nat) :
    inBlock column p = inBlock column q := by
  rw [Source.inBlock, Source.inBlock, ← h.allBlank]
  rcases h with rfl | rfl
  · rfl
  · cases blank : Text.allBlank p with
    | true => rfl
    | false =>
      have ends : ¬ (p.takeWhile isBlank).length = p.length := by
        intro whole
        have all := (List.takeWhile_prefix isBlank).eq_of_length whole
        rw [List.takeWhile_eq_self_iff] at all
        rw [Text.allBlank, List.all_eq_true.mpr all] at blank
        cases blank
      rw [indentation, indentation, List.takeWhile_append, if_neg ends]

section Kept

variable {R : List Char → List Char → Prop} {test : List Char → Bool} {ps qs : List (List Char)}

theorem forall₂_takeWhile (h : List.Forall₂ R ps qs) (same : ∀ p q, R p q → test p = test q) :
    List.Forall₂ R (ps.takeWhile test) (qs.takeWhile test) := by
  induction h with
  | nil => exact .nil
  | @cons p q ps qs first _ ih =>
    rw [List.takeWhile_cons, List.takeWhile_cons, same p q first]
    split
    case isTrue => exact .cons first ih
    case isFalse => exact .nil

theorem forall₂_dropWhile (h : List.Forall₂ R ps qs) (same : ∀ p q, R p q → test p = test q) :
    List.Forall₂ R (ps.dropWhile test) (qs.dropWhile test) := by
  induction h with
  | nil => exact .nil
  | @cons p q ps qs first rest ih =>
    rw [List.dropWhile_cons, List.dropWhile_cons, same p q first]
    split
    case isTrue => exact ih
    case isFalse => exact .cons first rest

end Kept

/-- The block below a declaration has as many lines. -/
theorem length_block_returnedPieces (column : Nat) (ps : List (List Char)) :
    (dropBlankEnd ((returnedPieces ps).takeWhile (inBlock column))).length =
      (dropBlankEnd (ps.takeWhile (inBlock column))).length := by
  have block := forall₂_takeWhile (sameLine_returnedPieces ps)
    fun p q same => SameLine.inBlock same column
  have kept := forall₂_dropWhile (List.forall₂_reverse_iff.mpr block)
    fun p q same => SameLine.allBlank same
  rw [dropBlankEnd, dropBlankEnd, List.length_reverse, List.length_reverse, kept.length_eq]

/-- What is kept of lines is their beginning. -/
theorem block_eq_take (column : Nat) (ps : List (List Char)) :
    dropBlankEnd (ps.takeWhile (inBlock column)) =
      ps.take (dropBlankEnd (ps.takeWhile (inBlock column))).length :=
  List.prefix_iff_eq_take.mp ((dropBlankEnd_isPrefix _).trans (List.takeWhile_prefix _))

theorem indentedExtent_withReturns (column : Nat) (s : List Char) :
    ∃ tail, (tail = [] ∨ tail = ['\r']) ∧
      indentedExtent column (withReturns s) = withReturns (indentedExtent column s) ++ tail := by
  obtain ⟨first, rest, cut⟩ := exists_pieces '\n' s
  have free : ∀ p ∈ first :: rest, '\n' ∉ p := fun p hp => not_mem_of_mem_pieces _ s p (cut ▸ hp)
  obtain ⟨tail, ends, joined⟩ := joinWith_returnedPieces free
    (dropBlankEnd (rest.takeWhile (inBlock column))).length
  refine ⟨tail, ends, ?_⟩
  rw [List.take_succ_cons, ← block_eq_take] at joined
  rw [indentedExtent, indentedExtent, pieces_withReturns, cut]
  dsimp only
  rw [joinLines, ← joined]
  cases rest with
  | nil => rfl
  | cons next rest =>
    rw [returnedPieces, List.take_succ_cons]
    dsimp only
    rw [block_eq_take column (returnedPieces (next :: rest)), length_block_returnedPieces]

/-- **A declaration extends as far**, by indentation maybe to the return behind its last line. -/
theorem extentAt_withReturns (language : Language) (place : Cursor) :
    ∃ tail, (tail = [] ∨ tail = ['\r']) ∧ extentAt language (place.withReturns []) =
      withReturns (extentAt language place) ++ tail := by
  rw [extentAt, extentAt, Cursor.column_withReturns, Cursor.withReturns, List.append_nil]
  split
  case isTrue => exact ⟨[], .inl rfl, by rw [List.append_nil]; exact headExtent_withReturns 0 _⟩
  case isFalse => exact indentedExtent_withReturns place.column place.after

end Extents

/-! ## 3. Symbols -/

/-- The same symbol but for line ends: in its signature returns stand in front of the line feeds,
    and maybe one at its end. -/
structure SameSymbol (s s' : Symbol) : Prop where
  kind : s'.kind = s.kind
  name : s'.name = s.name
  line : s'.line = s.line
  column : s'.column = s.column
  signature : ∃ tail, (tail = [] ∨ tail = ['\r']) ∧
    s'.signatureText.toList = withReturns s.signatureText.toList ++ tail

section Symbols

variable {language : Language} {content : List Char} {d : Pattern × SymbolKind} {m : Match}

/-- **Every pattern of a declaration is steady**, and refuses to begin at a line feed. -/
theorem declarations_steady (hd : d ∈ declarations language) :
    d.1.steady .unknown = true ∧ d.1.stance .unknown = .refuses := by
  have test : (declarations language).all (fun d =>
      d.1.steady .unknown && decide (d.1.stance .unknown = .refuses)) = true := by
    cases language <;> decide
  simpa using List.all_eq_true.mp test d hd

theorem findAll_declaration (hd : d ∈ declarations language) (content : List Char) :
    d.1.findAll (withReturns content) = (d.1.findAll content).map (·.withReturns []) := by
  obtain ⟨steady, refuses⟩ := declarations_steady hd
  have all := findAll_withReturns (.inl rfl) steady refuses content
  rwa [List.append_nil] at all

theorem span?_withReturns (m : Match) (tail : List Char) (name : String) :
    (m.withReturns tail).span? name =
      (m.span? name).map fun span => (span.1.withReturns tail, span.2.withReturns tail) := by
  rw [Match.span?, Match.span?, Match.withReturns, Parts.withReturns]
  induction m.parts with
  | nil => rfl
  | cons part ps ih =>
    obtain ⟨other, span⟩ := part
    rw [List.map_cons, List.lookup_cons, List.lookup_cons, ih]
    cases name == other with
    | true => rfl
    | false => rfl

/-- **A declaration stands for the same symbol** in the text with returns. -/
theorem symbolOf_withReturns (hd : d ∈ declarations language) (hm : m ∈ d.1.findAll content) :
    SameSymbol (symbolOf language d.2 m) (symbolOf language d.2 (m.withReturns [])) := by
  obtain ⟨front, behind, cut, -, -⟩ := exists_around_name hd
  obtain ⟨-, x, y, kept, -, name, -⟩ := around_of_mem_findAll hm cut
  have place : declarationStart (m.withReturns []) = (declarationStart m).withReturns [] :=
    Cursor.skipWhile_withReturns rfl m.start
  have free : '\n' ∉ x.textTo y := not_mem_of_avoids name rfl
  have named : (x.withReturns []).textTo (y.withReturns []) = x.textTo y := by
    rw [name.passes.withReturns.textTo, withReturns_of_not_mem free]
  obtain ⟨tail, ends, extent⟩ := extentAt_withReturns language (declarationStart m)
  refine ⟨rfl, ?_, ?_, ?_, tail, ends, ?_⟩
  · simp [symbolOf, Match.part?, span?_withReturns, kept, named]
  · simp only [symbolOf, place, Cursor.line_withReturns]
  · simp only [symbolOf, place, Cursor.column_withReturns]
  · simp only [symbolOf, place, Symbol.signatureText, Option.getD_some, String.toList_ofList,
      extent]

/-- **A file has the same symbols whatever ends its lines.** -/
theorem symbolsIn_withReturns (language : Language) (content : List Char) :
    List.Forall₂ SameSymbol (symbolsIn language content)
      (symbolsIn language (withReturns content)) := by
  -- both are made of the same matches in the same order, for the order looks at places only
  let found := (declarations language).flatMap fun d =>
    (d.1.findAll content).map fun m => (d, m)
  let plain := fun x : (Pattern × SymbolKind) × Match => symbolOf language x.1.2 x.2
  let returned := fun x : (Pattern × SymbolKind) × Match =>
    symbolOf language x.1.2 (x.2.withReturns [])
  have same : ∀ x ∈ found, SameSymbol (plain x) (returned x) := by
    intro x hx
    obtain ⟨d, hd, hx⟩ := List.mem_flatMap.mp hx
    obtain ⟨m, hm, rfl⟩ := List.mem_map.mp hx
    exact symbolOf_withReturns hd hm
  have sorted (f : (Pattern × SymbolKind) × Match → Symbol)
      (agrees : ∀ x ∈ found, ∀ y ∈ found,
        Precedes (plain x) (plain y) = Precedes (f x) (f y)) :
      (found.map f).mergeSort Precedes =
        (found.mergeSort fun x y => Precedes (plain x) (plain y)).map f :=
    (List.map_mergeSort agrees).symm
  have ofPlain : symbolsIn language content =
      (found.mergeSort fun x y => Precedes (plain x) (plain y)).map plain := by
    rw [← sorted plain fun _ _ _ _ => rfl, symbolsIn]
    simp [found, plain, List.map_flatMap, Function.comp_def]
  have ofReturned : symbolsIn language (withReturns content) =
      (found.mergeSort fun x y => Precedes (plain x) (plain y)).map returned := by
    rw [← sorted returned fun x hx y hy => by
      simp only [Precedes, (same x hx).line, (same x hx).column, (same y hy).line,
        (same y hy).column], symbolsIn, List.map_flatMap]
    congr 1
    refine List.flatMap_congr fun d hd => ?_
    simp [findAll_declaration hd, returned, Function.comp_def]
  rw [ofPlain, ofReturned, List.forall₂_map_left_iff, List.forall₂_map_right_iff,
    List.forall₂_same]
  exact fun x hx => same x (List.mem_mergeSort.mp hx)

end Symbols

end CodeInsight.Source
