import CodeInsight.Files.Access
import CodeInsight.Ignore.Glob
import CodeInsight.Text.Blank

/-!
# Rules for ignoring files

* a rule is a line of a file: a glob that is to be ignored, or behind a `!` one that is to be kept,
  a slash at the end restricting it to directories (`IgnoreRule.ofLine?`);
* a glob without a slash is meant for names anywhere below the file's directory, one with a slash
  for paths from there;
* of the rules of a list that cover a path the last decides (`IgnoreList.verdict?`).
-/

namespace CodeInsight

open CodeInsight.Text

/-- What is to be done with a path. -/
inductive Verdict where
  | ignored
  | kept
  deriving DecidableEq, Repr

/-- A rule. -/
structure IgnoreRule where
  glob : Glob
  verdict : Verdict
  directoriesOnly : Bool

namespace IgnoreRule

/-! ## 1. Reading a line -/

/-- A line without the blanks at its end, unless the last is escaped. -/
def trimmed (l : List Char) : List Char :=
  match l.reverse with
  | ' ' :: '\\' :: _ => l
  | r => (r.dropWhile isBlank).reverse

/-- A line without the mark in front: the verdict, whether it holds from the directory on, and the
    rest. -/
def marked : List Char → Verdict × Bool × List Char
  | '\\' :: '!' :: l => (.ignored, false, '!' :: l)
  | '\\' :: '#' :: l => (.ignored, false, '#' :: l)
  | '!' :: '/' :: l => (.kept, true, l)
  | '!' :: l => (.kept, false, l)
  | '/' :: l => (.ignored, true, l)
  | l => (.ignored, false, l)

/-- A line without a slash at its end, and whether it had one; a backslash before that slash goes
    with it. -/
def withoutSlash (l : List Char) : Bool × List Char :=
  match l.reverse with
  | '/' :: '\\' :: r => (true, r.reverse)
  | '/' :: r => (true, r.reverse)
  | _ => (false, l)

/-- The glob for paths from the directory on. What lies below `**` does not take in the directory
    itself. -/
def anchored (fromDirectory : Bool) (l : List Char) : List Char :=
  let everywhere := !fromDirectory && !l.contains '/' && l != ['*', '*']
  let g := if everywhere then '*' :: '*' :: '/' :: l else l
  if ['/', '*', '*'].isSuffixOf g then g ++ ['/', '*'] else g

/-- The rule that a line is, nothing for a comment or a blank line. -/
def ofLine? (line : List Char) : Except GlobFault (Option IgnoreRule) :=
  if line.head? = some '#' then .ok none
  else
    let l := trimmed line
    if l.isEmpty then .ok none
    else
      let (verdict, fromDirectory, l) := marked l
      let (directoriesOnly, l) := withoutSlash l
      match Glob.ofText? (anchored fromDirectory l) with
      | .error cause => .error cause
      | .ok glob => .ok (some ⟨glob, verdict, directoriesOnly⟩)

end IgnoreRule

/-! ## 2. Lists -/

/-- What is wrong with a line of a list. -/
inductive LineFault where
  | glob (line : String) (cause : GlobFault)
  | notText
  deriving DecidableEq, Repr

/-- The text of a cause. -/
def LineFault.message : LineFault → String
  | .glob line cause => s!"error parsing glob '{line}': {cause.message}"
  | .notText => FileFault.notText.message

/-- Rules for what lies below a directory. -/
structure IgnoreList where
  base : Place
  rules : List IgnoreRule

namespace IgnoreList

/-- The lines of a file, without the line feed, or carriage return and line feed, that ends each. -/
def byteLines : List UInt8 → List (List UInt8)
  | [] => []
  | 10 :: bs => [] :: byteLines bs
  | 13 :: 10 :: bs => [] :: byteLines bs
  | b :: bs =>
    match byteLines bs with
    | [] => [[b]]
    | l :: ls => (b :: l) :: ls

/-- A text without the marks of byte order in front. -/
def withoutByteOrder (l : List Char) : List Char := l.dropWhile (· == '\uFEFF')

/-- The rules of lines, the first having the number `n`, and what is wrong with which line. What is
    no text ends the list. -/
def read : Nat → List (List UInt8) → List IgnoreRule × List (Nat × LineFault)
  | _, [] => ([], [])
  | n, bytes :: more =>
    match FileTree.decode bytes with
    | .error _ => ([], [(n, .notText)])
    | .ok s =>
      let l := if n = 1 then withoutByteOrder s.toList else s.toList
      let (rules, faults) := read (n + 1) more
      match IgnoreRule.ofLine? l with
      | .error cause => (rules, (n, .glob (String.ofList (IgnoreRule.trimmed l)) cause) :: faults)
      | .ok none => (rules, faults)
      | .ok (some rule) => (rule :: rules, faults)

/-- Whether a rule of a list below a directory is about a place. -/
def concerns (base : Place) (place : Place) (isDirectory : Bool) (rule : IgnoreRule) : Bool :=
  (!rule.directoriesOnly || isDirectory) &&
    rule.glob.covers (FileTree.encode (FileTree.placeText (place.drop base.length)))

/-- What a list says of a place below its directory. -/
def verdict? (l : IgnoreList) (place : Place) (isDirectory : Bool) : Option Verdict :=
  (l.rules.reverse.find? (concerns l.base place isDirectory)).map (·.verdict)

end IgnoreList

end CodeInsight
