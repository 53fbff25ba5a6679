import CodeInsight.Text.Lines
import CodeInsight.Text.Pattern

/-!
# Measures of a declaration

* `complexity` counts the ways through a text: one, and one more for each branching word, each
  pair of ampersands or bars and each conditional question mark;
* `parameterCount` counts what stands between the commas of the first parenthesised list;
* `nestingDepth` is the greatest number of braces open at once;
* `braceSpan` is the number of lines from a given one to the line where the braces balance.

All four read the text as it stands: comments and literals count like the rest.
-/

namespace CodeInsight.Analysis

open CodeInsight.Text

/-! ## 1. Complexity -/

/-- The words that branch. -/
def branchWords : List String := ["if", "else", "for", "while", "case", "catch"]

/-- A branching word that is no part of a longer one. -/
def branchWord : Pattern := Pattern.wordEdge ++ Pattern.anyText branchWords ++ Pattern.wordEdge

/-- The number of pairs of a character that do not overlap, from the left. -/
def pairCount (c : Char) : List Char → Nat
  | a :: b :: rest => if a = c ∧ b = c then pairCount c rest + 1 else pairCount c (b :: rest)
  | _ => 0

/-- The number of question marks alone: no other beside them, and no dot behind them. The first
    argument says whether a question mark precedes the text. -/
def conditionalsAfter (marked : Bool) : List Char → Nat
  | [] => 0
  | '?' :: rest =>
    (if !marked && rest.head? != some '?' && rest.head? != some '.' then 1 else 0) +
      conditionalsAfter true rest
  | _ :: rest => conditionalsAfter false rest

/-- The number of conditional question marks of a text. -/
def conditionals (s : List Char) : Nat := conditionalsAfter false s

/-- The estimated number of independent ways through a text. -/
def complexity (s : List Char) : Nat :=
  1 + (branchWord.findAll s).length + pairCount '&' s + pairCount '|' s + conditionals s

/-! ## 2. Parameters -/

/-- The text up to the parenthesis that closes the last of `depth` open ones, or all of it. -/
def insideParentheses (depth : Nat) : List Char → List Char
  | [] => []
  | c :: rest =>
    if c = '(' then c :: insideParentheses (depth + 1) rest
    else if c = ')' then
      if depth ≤ 1 then [] else c :: insideParentheses (depth - 1) rest
    else c :: insideParentheses depth rest

/-- What stands in the first parentheses of a text, if it opens any. -/
def parameterText? (s : List Char) : Option (List Char) :=
  match s.dropWhile (· != '(') with
  | [] => none
  | _ :: rest => some (insideParentheses 1 rest)

/-- The number of parameters: the pieces between the commas of the first parenthesised list that
    are not blank. Commas inside a parameter's own parentheses count too. -/
def parameterCount (s : List Char) : Nat :=
  match parameterText? s with
  | none => 0
  | some ps => (pieces ',' ps).countP fun piece => !allBlank piece

/-! ## 3. Nesting -/

/-- The greatest number of braces open at once from a place on, `depth` open there already. A
    closing brace without an opening one closes nothing. -/
def nestingFrom (depth : Nat) : List Char → Nat
  | [] => depth
  | '{' :: rest => nestingFrom (depth + 1) rest
  | '}' :: rest => max depth (nestingFrom (depth - 1) rest)
  | _ :: rest => nestingFrom depth rest

/-- The greatest number of braces open at once. -/
def nestingDepth (s : List Char) : Nat := nestingFrom 0 s

/-! ## 4. Lines -/

/-- The braces seen so far: none yet, or the excess of opening over closing ones from the first
    opening one on. -/
abbrev Balance := Option Int

/-- The braces seen after one more character. -/
def Balance.next (b : Balance) (c : Char) : Balance :=
  if c = '{' then some (b.getD 0 + 1)
  else if c = '}' then b.map (· - 1)
  else b

/-- Whether the braces seen balance. -/
def Balance.closed (b : Balance) : Bool :=
  match b with
  | none => false
  | some n => decide (n ≤ 0)

/-- The number of lines up to the first at whose end the braces balance. -/
def closingLine? (b : Balance) : List (List Char) → Option Nat
  | [] => none
  | l :: ls =>
    let b' := l.foldl Balance.next b
    if b'.closed then some 1 else (closingLine? b' ls).map (· + 1)

/-- The number of lines from line `first` (counted from 1, 0 meaning 1 as well) to the one where
    the braces opened since balance, if they ever do. -/
def braceSpan (s : List Char) (first : Nat) : Option Nat :=
  closingLine? none ((lines s).drop (first - 1))

end CodeInsight.Analysis
