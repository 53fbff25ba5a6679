import CodeInsight.Files.Sources
import CodeInsight.Ignore.Levels

/-!
# Walks that ignore files

* a walk below a directory comes to the files that no rule ignores (`IgnoreLevel.filesBelow`); it
  passes over links, and it reports the rules above the directory that are no rules
  (`IgnoreLevel.walker`);
* so source files are collected (`Sources.collect`). Rules that hold for all repositories of a user
  are none of this walker's.
-/

namespace CodeInsight

namespace IgnoreLevel

/-- The places of the files below a directory that no rule ignores, `depth` directories deep at
    most. The levels are those above the directory, the nearest first. -/
def filesBelow (t : FileTree) : Nat → List IgnoreLevel → Place → List Place
  | 0, _, _ => []
  | depth + 1, levels, directory =>
    let inner := (ofDirectory t directory).1 :: levels
    (t.names directory).flatMap fun name =>
      let place := directory ++ [name]
      match t.get? place with
      | some (.file _) => if isIgnored inner directory name false then [] else [place]
      | some .directory =>
        if isIgnored inner directory name true then [] else filesBelow t depth inner place
      | _ => []

/-- The greatest number of names that lead to something. -/
def depth (t : FileTree) : Nat := (t.nodes.map fun e => e.1.length).foldl max 0

/-- What a walk reports of rules that are none. -/
def reported (faults : List IgnoreFault) : List WalkEntry :=
  if faults.isEmpty then []
  else [.fault (String.intercalate "\n" (faults.map IgnoreFault.message))]

/-- The walker that passes over links and what is ignored. -/
def walker : Walker := fun _ t directory =>
  let (levels, faults) := above t directory
  reported faults ++ (filesBelow t (depth t + 1) levels directory).map .file

end IgnoreLevel

/-- The source files that paths stand for where ignored files are passed over. -/
def Sources.collect : FileTree → Place → List String →
    Except AccessFault (List String) × List LogLine :=
  collectBy IgnoreLevel.walker

end CodeInsight
