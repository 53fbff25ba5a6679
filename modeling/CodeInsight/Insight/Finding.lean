/-!
# Findings

* a `Finding` says what an analysis noticed at a place in a file;
* its severity says how urgent it is, its category which analysis it comes from.
-/

namespace CodeInsight

/-- How urgent a finding is, from the least to the most. -/
inductive Severity where
  | info
  | warning
  | error
  deriving DecidableEq, Repr

namespace Severity

/-- Every severity, the least first. -/
def all : List Severity := [info, warning, error]

/-- The name written for a severity. -/
def name : Severity → String
  | info => "info"
  | warning => "warning"
  | error => "error"

/-- The place in the order. -/
def rank : Severity → Nat
  | info => 0
  | warning => 1
  | error => 2

/-- Whether a severity is not above another. -/
def atMost (a b : Severity) : Bool := a.rank ≤ b.rank

/-- The severities in ascending order. -/
def sorted (ss : List Severity) : List Severity := ss.mergeSort atMost

/-- The greatest of several severities. -/
def greatest? (ss : List Severity) : Option Severity := (sorted ss).getLast?

end Severity

/-- Which analysis a finding comes from. -/
inductive Category where
  | complexity
  | smell
  | intent
  deriving DecidableEq, Repr

namespace Category

/-- Every category. -/
def all : List Category := [complexity, smell, intent]

/-- The name written for a category. -/
def name : Category → String
  | complexity => "complexity"
  | smell => "smell"
  | intent => "intent"

end Category

/-- What was noticed at a place. The line counts from 1, the column counts bytes from 0. -/
structure Finding where
  path : String
  line : Nat
  column : Nat
  severity : Severity
  category : Category
  message : String
  deriving DecidableEq, Repr

end CodeInsight
