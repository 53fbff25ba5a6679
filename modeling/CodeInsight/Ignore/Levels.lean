import CodeInsight.Ignore.Rules
import CodeInsight.Text.Lines

/-!
# Which paths are ignored

* a directory is a level: its rules in `.ignore` hold anywhere, those in `.gitignore` and in the
  repository's `info/exclude` only within a repository, and not beyond its top;
* a list in a nearer directory goes before one further up, and for all directories together
  `.ignore` goes before `.gitignore`, and that before `info/exclude` (`verdict?`);
* a name that begins with a dot is ignored unless a rule keeps it (`isIgnored`).
-/

namespace CodeInsight

/-- What is wrong with a file of rules: a line of it, or the file as a whole. -/
structure IgnoreFault where
  path : String
  line : Option Nat
  cause : LineFault
  deriving DecidableEq, Repr

/-- The text of a fault. -/
def IgnoreFault.message (f : IgnoreFault) : String :=
  match f.line with
  | some n => s!"{f.path}: line {n}: {f.cause.message}"
  | none => s!"{f.path}: {f.cause.message}"

/-- The rules of a directory. -/
structure IgnoreLevel where
  ignore : IgnoreList
  gitignore : IgnoreList
  exclude : IgnoreList
  isRepository : Bool

namespace IgnoreLevel

/-! ## 1. Reading the rules of a directory -/

/-- The rules in a file for what lies below a directory, and what is wrong with them. A file that
    cannot be read has none. -/
def listAt (t : FileTree) (base : Place) (path : String) : IgnoreList × List IgnoreFault :=
  match t.readBytes [] path with
  | .error _ => (⟨base, []⟩, [])
  | .ok content =>
    let (rules, faults) := IgnoreList.read 1 (IgnoreList.byteLines content)
    let told := match faults with
      | [(_, .notText)] => []
      | fs => fs.map fun f => ⟨path, some f.1, f.2⟩
    (⟨base, rules⟩, told)

/-- The first line of a file. -/
def firstLine? (t : FileTree) (path : String) : Option (List Char) :=
  match t.readText [] path with
  | .ok s => (Text.lines s.toList).head?
  | .error _ => none

/-- The directory a repository shares with its other working trees: `.git`, or where a file in its
    place leads. -/
def sharedDirectory? (t : FileTree) (directory : String) : Option String :=
  let git := Path.join directory ".git"
  match t.find [] git with
  | .ok (_, .file _) =>
    match firstLine? t git with
    | some line =>
      let mark := "gitdir: ".toList
      if mark.isPrefixOf line then
        let real := String.ofList (line.drop mark.length)
        (firstLine? t (Path.join real "commondir")).map fun l =>
          if l.head? = some '.' then Path.join real (String.ofList l) else String.ofList l
      else none
    | none => none
  | _ => some git

/-- The rules of a directory, and what is wrong with them. -/
def ofDirectory (t : FileTree) (base : Place) : IgnoreLevel × List IgnoreFault :=
  let directory := FileTree.pathOf base
  let (ignore, f₁) := listAt t base (Path.join directory ".ignore")
  let (gitignore, f₂) := listAt t base (Path.join directory ".gitignore")
  let (exclude, f₃) := match sharedDirectory? t directory with
    | some git => listAt t base (Path.join git "info/exclude")
    | none => (⟨base, []⟩, [])
  let isRepository :=
    t.reaches [] (Path.join directory ".git") || t.reaches [] (Path.join directory ".jj")
  (⟨ignore, gitignore, exclude, isRepository⟩, f₁ ++ f₂ ++ f₃)

/-! ## 2. Verdicts -/

/-- The levels up to the top of the repository, the nearest first. -/
def withinRepository : List IgnoreLevel → List IgnoreLevel
  | [] => []
  | l :: ls => l :: if l.isRepository then [] else withinRepository ls

/-- What the rules of levels, the nearest first, say of a place. -/
def verdict? (levels : List IgnoreLevel) (place : Place) (isDirectory : Bool) : Option Verdict :=
  let first (ls : List IgnoreLevel) (list : IgnoreLevel → IgnoreList) : Option Verdict :=
    ls.findSome? fun l => (list l).verdict? place isDirectory
  let repository := if levels.any (·.isRepository) then withinRepository levels else []
  match first levels (·.ignore) with
  | some v => some v
  | none =>
    match first repository (·.gitignore) with
    | some v => some v
    | none => first repository (·.exclude)

/-- Whether a name is hidden. -/
def isHidden (name : String) : Bool := name.toList.head? == some '.'

/-- Whether a name in a directory is passed over. -/
def isIgnored (levels : List IgnoreLevel) (directory : Place) (name : String)
    (isDirectory : Bool) : Bool :=
  match verdict? levels (directory ++ [name]) isDirectory with
  | some .ignored => true
  | some .kept => false
  | none => isHidden name

/-- The levels above a directory, the nearest first, and what is wrong with their rules, the
    furthest first. -/
def above (t : FileTree) (directory : Place) : List IgnoreLevel × List IgnoreFault :=
  let read := (List.range directory.length).map fun n => ofDirectory t (directory.take n)
  (read.reverse.map (·.1), read.flatMap (·.2))

end IgnoreLevel

end CodeInsight
