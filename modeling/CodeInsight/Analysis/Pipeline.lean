import CodeInsight.Analysis.Intent
import CodeInsight.Analysis.Measure
import CodeInsight.Analysis.Thresholds
import CodeInsight.Insight.Finding
import CodeInsight.Source.Symbol

/-!
# The analysis of a file

* three passes, none of which sees what another found: complexity and smells of each function and
  class, and the intents that the end of the file suggests;
* the findings of the first pass come before those of the second, each in the order of the symbols
  (`Analysis.run`);
* a symbol far too complex is also a candidate for refactoring.

The length of a symbol is read off the file from the symbol's line on, everything else off the
symbol's own text.
-/

namespace CodeInsight.Analysis

/-! ## 1. What the passes yield -/

/-- A symbol complex enough to be worth refactoring. -/
structure Candidate where
  symbol : Symbol
  complexity : Nat
  deriving DecidableEq, Repr

/-- What an analysis of a file yields. -/
structure Report where
  findings : List Finding
  candidates : List Candidate
  signals : List Signal
  deriving DecidableEq, Repr

/-! ## 2. Messages -/

/-- A text with its first letter in upper case. -/
def capitalised (s : String) : String :=
  match s.toList with
  | [] => ""
  | c :: rest => String.ofList (c.toUpper :: rest)

/-- How a symbol is named in a message. -/
def describe (s : Symbol) : String := s!"{capitalised s.kind.name} '{s.name}'"

/-- A smell at a symbol. -/
def smell (path : String) (s : Symbol) (message : String) : Finding :=
  ⟨path, s.line, s.column, .info, .smell, message⟩

/-! ## 3. The passes -/

/-- The complexity of a symbol's text. -/
def symbolComplexity (s : Symbol) : Nat := complexity s.signatureText.toList

/-- The finding about a symbol's complexity, if it is above the limit. -/
def complexityFinding? (t : Thresholds) (path : String) (s : Symbol) : Option Finding :=
  let n := symbolComplexity s
  if t.complexityWarning < n then
    some ⟨path, s.line, s.column, .warning, .complexity,
      s!"{describe s} has high cyclomatic complexity ({n})"⟩
  else none

/-- The candidate for refactoring that a symbol is, if it is one. -/
def candidate? (t : Thresholds) (s : Symbol) : Option Candidate :=
  let n := symbolComplexity s
  if t.refactoringProposal < n then some ⟨s, n⟩ else none

/-- The smell of a length above the limit. -/
def lengthSmell? (t : Thresholds) (path : String) (content : List Char) (s : Symbol) :
    Option Finding :=
  match braceSpan content s.line with
  | none => none
  | some n =>
    if t.longFunctionLines < n then
      some (smell path s s!"{describe s} is {n} lines long (limit {t.longFunctionLines})")
    else none

/-- The smell of too many parameters. -/
def parameterSmell? (t : Thresholds) (path : String) (s : Symbol) : Option Finding :=
  let n := parameterCount s.signatureText.toList
  if t.maxParameters < n then
    some (smell path s s!"{describe s} has {n} parameters (limit {t.maxParameters})")
  else none

/-- The smell of braces nested too deep. -/
def nestingSmell? (t : Thresholds) (path : String) (s : Symbol) : Option Finding :=
  let n := nestingDepth s.signatureText.toList
  if t.maxNestingDepth < n then
    some (smell path s s!"{describe s} has nesting depth {n} (limit {t.maxNestingDepth})")
  else none

/-- The smells of a symbol: its length, its parameters, its nesting. -/
def smells (t : Thresholds) (path : String) (content : List Char) (s : Symbol) : List Finding :=
  (lengthSmell? t path content s).toList ++ (parameterSmell? t path s).toList ++
    (nestingSmell? t path s).toList

/-! ## 4. The analysis -/

/-- The analysis of a file with the given outline. The path named in the findings and the content
    are those given, whatever the outline says. -/
def run (t : Thresholds) (path content : String) (o : Outline) : Report :=
  let text := content.toList
  let symbols := o.analyzable
  { findings := symbols.filterMap (complexityFinding? t path) ++
      symbols.flatMap (smells t path text)
    candidates := symbols.filterMap (candidate? t)
    signals := Intent.detect text t.intentWindowLines }

end CodeInsight.Analysis
