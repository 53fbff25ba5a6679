/-!
# Globs

* a glob describes paths: `?` is a byte and `*` a run of bytes within a name, `**` stands for whole
  directories, `[…]` for a byte of a class and `{…,…}` for one of several globs;
* `Glob.ofText?` reads a glob, refusing ranges that run backwards and groups that are not closed;
  a class that is not closed is no class, and its bracket stands for itself;
* `Glob.covers` tells whether a whole path is described.
-/

namespace CodeInsight

/-! ## 1. Shapes -/

/-- What a glob describes, byte by byte. -/
inductive GlobShape where
  | nothing
  | one (cls : UInt8 → Bool)
  | run (cls : UInt8 → Bool)
  | seq (p q : GlobShape)
  | alt (p q : GlobShape)

namespace GlobShape

/-- The byte that parts the names of a path. -/
def slash : UInt8 := 47

/-- Any byte of a name. -/
def inName (b : UInt8) : Bool := b != slash

/-- Any byte. -/
def any (_ : UInt8) : Bool := true

/-- The rests of a path behind none, one, two, … bytes of a class. -/
def rests (cls : UInt8 → Bool) : List UInt8 → List (List UInt8)
  | [] => [[]]
  | b :: bs => (b :: bs) :: if cls b then rests cls bs else []

/-- Whether a shape describes the front of a path so that `k` accepts the rest. -/
def fits : GlobShape → List UInt8 → (List UInt8 → Bool) → Bool
  | .nothing, s, k => k s
  | .one cls, s, k =>
    match s with
    | [] => false
    | b :: bs => cls b && k bs
  | .run cls, s, k => (rests cls s).any k
  | .seq p q, s, k => p.fits s fun rest => q.fits rest k
  | .alt p q, s, k => p.fits s k || q.fits s k

/-- The shapes one after the other. -/
def chain : List GlobShape → GlobShape
  | [] => .nothing
  | p :: ps => .seq p (chain ps)

/-- Exactly some bytes. -/
def bytes (bs : List UInt8) : GlobShape := chain (bs.map fun b => .one (· == b))

end GlobShape

/-! ## 2. Parts -/

/-- A part of a glob. The three parts for whole directories differ by where they stand: in front,
    between two names, or at the end. -/
inductive GlobPart where
  | literal (c : Char)
  | oneByte
  | withinName
  | directoriesInFront
  | directoriesBetween
  | everythingBelow
  | byteOf (negated : Bool) (ranges : List (Char × Char))
  | oneAmong (shape : Option GlobShape)

namespace GlobPart

/-- The bytes of a character. -/
def bytesOf (c : Char) : List UInt8 := c.toString.toUTF8.toList

/-- Whether a byte belongs to a range of characters: the range runs from the last byte of the one to
    the first byte of the other, and their further bytes belong to it too. -/
def inRange (r : Char × Char) (b : UInt8) : Bool :=
  let low := bytesOf r.1
  let high := bytesOf r.2
  if r.1 = r.2 then low.contains b
  else
    low.dropLast.contains b || (high.drop 1).contains b ||
      (low.getLast?.any (· ≤ b) && high.head?.any (b ≤ ·))

/-- The shape of a part. -/
def shape : GlobPart → GlobShape
  | .literal c => .bytes (bytesOf c)
  | .oneByte => .one GlobShape.inName
  | .withinName => .run GlobShape.inName
  | .directoriesInFront =>
    .alt .nothing (.alt (.bytes [GlobShape.slash])
      (.seq (.run GlobShape.any) (.bytes [GlobShape.slash])))
  | .directoriesBetween =>
    .alt (.bytes [GlobShape.slash])
      (.seq (.bytes [GlobShape.slash]) (.seq (.run GlobShape.any) (.bytes [GlobShape.slash])))
  | .everythingBelow => .seq (.bytes [GlobShape.slash]) (.run GlobShape.any)
  | .byteOf negated ranges => .one fun b => (ranges.any fun r => inRange r b) != negated
  | .oneAmong (some s) => s
  | .oneAmong none => .nothing

/-- The shape of several parts in sequence. -/
def shapes (ps : List GlobPart) : GlobShape := .chain (ps.map shape)

/-- Whether a part describes the empty text only. -/
def isIdle : GlobPart → Bool
  | .oneAmong none => true
  | _ => false

/-- The group of several branches; branches without parts are left out. -/
def group (branches : List (List GlobPart)) : GlobPart :=
  match (branches.filter fun ps => !ps.all isIdle).map shapes with
  | [] => .oneAmong none
  | s :: ss => .oneAmong (some (ss.foldl .alt s))

end GlobPart

/-! ## 3. Reading -/

/-- What is wrong with a glob. -/
inductive GlobFault where
  | backwards (low high : Char)
  | notOpened
  | notClosed
  | nothingEscaped
  deriving DecidableEq, Repr

/-- The text of a cause. -/
def GlobFault.message : GlobFault → String
  | .backwards low high => s!"invalid range; '{low}' > '{high}'"
  | .notOpened =>
    "unopened alternate group; missing '\x7b' (maybe escape '\x7d' with '[\x7d]'?)"
  | .notClosed =>
    "unclosed alternate group; missing '\x7d' (maybe escape '\x7b' with '[\x7b]'?)"
  | .nothingEscaped => "dangling '\\'"

/-- A class while it is read: its ranges, the latest first, and whether a dash waits for the end of
    the latest. -/
structure ClassReader where
  ranges : List (Char × Char) := []
  waiting : Bool := false

namespace ClassReader

/-- The class with a character more. -/
def take (r : ClassReader) (c : Char) : Except GlobFault ClassReader :=
  match r.waiting, r.ranges with
  | true, (low, _) :: rest =>
    if c < low then .error (.backwards low c) else .ok ⟨(low, c) :: rest, false⟩
  | _, ranges => .ok ⟨(c, c) :: ranges, false⟩

/-- The ranges; a dash that still waits stands for itself. -/
def finish (r : ClassReader) : List (Char × Char) :=
  (if r.waiting then ('-', '-') :: r.ranges else r.ranges).reverse

/-- Reads a class up to its closing bracket: the ranges and the number of characters read, nothing
    if the bracket is missing. A bracket or a dash at the very front stands for itself. -/
def run (r : ClassReader) :
    Bool → Nat → List Char → Except GlobFault (Option (List (Char × Char) × Nat))
  | _, _, [] => .ok none
  | true, n, c :: rest =>
    match r.take c with
    | .error cause => .error cause
    | .ok r' => run r' false (n + 1) rest
  | false, n, c :: rest =>
    if c = ']' then .ok (some (r.finish, n + 1))
    else if c = '-' && !r.waiting then run { r with waiting := true } false (n + 1) rest
    else
      match r.take c with
      | .error cause => .error cause
      | .ok r' => run r' false (n + 1) rest

/-- Reads the class behind an opening bracket: the part and the number of characters read. -/
def class? (rest : List Char) : Except GlobFault (Option (GlobPart × Nat)) :=
  let negated := rest.head? == some '!' || rest.head? == some '^'
  (run {} true 0 (if negated then rest.drop 1 else rest)).map fun found =>
    found.map fun c => (.byteOf negated c.1, if negated then c.2 + 1 else c.2)

end ClassReader

/-- A glob while it is read: the parts of the present branch, the latest first, the groups it lies
    in, innermost first, each with its finished branches and the parts before it, and whether a
    class was not closed. -/
structure GlobReader where
  parts : List GlobPart := []
  groups : List (List (List GlobPart) × List GlobPart) := []
  unclosed : Bool := false

namespace GlobReader

/-- The glob with a part more. -/
def add (r : GlobReader) (p : GlobPart) : GlobReader := { r with parts := p :: r.parts }

/-- The glob behind two stars, and the number of characters read of what follows them. Only two
    stars that are a whole name stand for directories. -/
def stars (r : GlobReader) (before : Option Char) (rest : List Char) : GlobReader × Nat :=
  let inGroup := !r.groups.isEmpty
  let plain := ((r.add .withinName).add .withinName, 0)
  let instead (p : GlobPart) : GlobReader :=
    match r.parts with
    | .directoriesInFront :: _ => r
    | .everythingBelow :: _ => r
    | _ :: ps => { r with parts := p :: ps }
    | [] => r.add p
  if r.parts.isEmpty then
    match rest.head? with
    | none => (r.add .directoriesInFront, 0)
    | some c => if c = '/' then (r.add .directoriesInFront, 1) else plain
  else if before != some '/' && !(inGroup && (before == some ',' || before == some '{')) then plain
  else
    match rest.head? with
    | none => (instead .everythingBelow, 0)
    | some c =>
      if c = '/' then (instead .directoriesBetween, 1)
      else if inGroup && (c == ',' || c == '}') then (instead .everythingBelow, 0)
      else plain

/-- The glob behind a character that is read together with what follows it, and the number of
    characters read of that. -/
def step (r : GlobReader) (before : Option Char) (c : Char) (rest : List Char) :
    Except GlobFault (GlobReader × Nat) :=
  match c with
  | '?' => .ok (r.add .oneByte, 0)
  | '*' =>
    match rest with
    | '*' :: rest' =>
      let (r', n) := r.stars before rest'
      .ok (r', n + 1)
    | _ => .ok (r.add .withinName, 0)
  | '[' =>
    if r.unclosed then .ok (r.add (.literal '['), 0)
    else
      match ClassReader.class? rest with
      | .error cause => .error cause
      | .ok none => .ok ({ r.add (.literal '[') with unclosed := true }, 0)
      | .ok (some (p, n)) => .ok (r.add p, n)
  | '{' => .ok ({ r with parts := [], groups := ([], r.parts) :: r.groups }, 0)
  | '}' =>
    match r.groups with
    | [] => .error .notOpened
    | (branches, before) :: outer =>
      let p := GlobPart.group ((r.parts :: branches).reverse.map List.reverse)
      .ok ({ r with parts := p :: before, groups := outer }, 0)
  | ',' =>
    match r.groups with
    | [] => .ok (r.add (.literal ','), 0)
    | (branches, before) :: outer =>
      .ok ({ r with parts := [], groups := (r.parts :: branches, before) :: outer }, 0)
  | '\\' =>
    match rest with
    | [] => .error .nothingEscaped
    | e :: _ => .ok (r.add (.literal e), 1)
  | c => .ok (r.add (.literal c), 0)

/-- Reads a glob to its end, behind the first `skip` characters, which belong to what was read. -/
def run (r : GlobReader) : Nat → Option Char → List Char → Except GlobFault GlobReader
  | _, _, [] => .ok r
  | skip + 1, _, c :: rest => run r skip (some c) rest
  | 0, before, c :: rest =>
    match r.step before c rest with
    | .error cause => .error cause
    | .ok (r', skip) => run r' skip (some c) rest

end GlobReader

/-- A description of paths. -/
structure Glob where
  shape : GlobShape

namespace Glob

/-- The glob that a text is. One that is nothing but directories in front describes every path. -/
def ofText? (s : List Char) : Except GlobFault Glob :=
  match GlobReader.run {} 0 none s with
  | .error cause => .error cause
  | .ok r =>
    match r.groups, r.parts.reverse with
    | _ :: _, _ => .error .notClosed
    | [], [.directoriesInFront] => .ok ⟨.run GlobShape.any⟩
    | [], ps => .ok ⟨GlobPart.shapes ps⟩

/-- Whether a path is described, from its first byte to its last. -/
def covers (g : Glob) (path : List UInt8) : Bool := g.shape.fits path List.isEmpty

end Glob

end CodeInsight
