/-!
# The limits of an analysis

* six limits, each with a usual value; a finding is made of what is **above** its limit.
-/

namespace CodeInsight

/-- The limits of an analysis. -/
structure Thresholds where
  complexityWarning : Nat := 10
  refactoringProposal : Nat := 15
  longFunctionLines : Nat := 50
  maxParameters : Nat := 5
  maxNestingDepth : Nat := 4
  intentWindowLines : Nat := 10
  deriving DecidableEq, Repr

instance : Inhabited Thresholds := ⟨{}⟩

/-- The names of the limits in their order. -/
def Thresholds.names : List String :=
  ["complexity_warning", "refactoring_proposal", "long_function_lines", "max_parameters",
   "max_nesting_depth", "intent_window_lines"]

/-- The limits, read off the ones that are given. -/
def Thresholds.ofGiven (given : String → Option Nat) : Thresholds :=
  let usual : Thresholds := {}
  let limit (name : String) (least : Nat) : Nat := (given name).getD least
  { complexityWarning := limit "complexity_warning" usual.complexityWarning
    refactoringProposal := limit "refactoring_proposal" usual.refactoringProposal
    longFunctionLines := limit "long_function_lines" usual.longFunctionLines
    maxParameters := limit "max_parameters" usual.maxParameters
    maxNestingDepth := limit "max_nesting_depth" usual.maxNestingDepth
    intentWindowLines := limit "intent_window_lines" usual.intentWindowLines }

/-- The limits with their names. -/
def Thresholds.entries (t : Thresholds) : List (String × Nat) :=
  names.zip [t.complexityWarning, t.refactoringProposal, t.longFunctionLines, t.maxParameters,
    t.maxNestingDepth, t.intentWindowLines]

end CodeInsight
