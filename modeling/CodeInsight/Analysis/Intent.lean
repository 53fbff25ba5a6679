import CodeInsight.Number.Shortest
import CodeInsight.Text.Lines
import CodeInsight.Text.Pattern

/-!
# What a developer is working on

* an `Intent` is guessed from a cue in the last lines of a file: a call of a test, a note to clean
  up, a call to another service (`Intent.cue`);
* each intent has one confidence, whatever the cue found (`Intent.confidence`);
* `detect` gives one signal for every intent whose cue is there, in one order.
-/

namespace CodeInsight

/-- What a developer may be working on. -/
inductive Intent where
  | testing
  | refactoring
  | integration
  deriving DecidableEq, Repr

namespace Intent

open CodeInsight.Text

/-- Every intent, in the order in which they are reported. -/
def all : List Intent := [testing, refactoring, integration]

/-- The name written for an intent. -/
def name : Intent → String
  | testing => "testing"
  | refactoring => "refactoring"
  | integration => "integration"

/-- How sure a signal of an intent is: 0.9, 0.85 and 0.8, as near as 32 bits come to them. -/
def confidence : Intent → Signed
  | testing => ⟨false, .finite 15099494 (-24)⟩
  | refactoring => ⟨false, .finite 14260634 (-24)⟩
  | integration => ⟨false, .finite 13421773 (-24)⟩

/-- Exactly the letters of a word, each in either case. -/
def anyCase (s : String) : Pattern :=
  s.toList.foldr (fun c p => .seq (.one fun x => x.toLower == c) p) .nothing

/-- A call of a test, by one of the usual names. -/
def testCall : Pattern :=
  .wordEdge ++ Pattern.anyText ["describe", "test", "it"] ++ Pattern.text "("

/-- A comment that begins with a word for tidying up. -/
def tidyNote : Pattern :=
  Pattern.anyText ["//", "#"] ++ Pattern.blanks ++ .alt (anyCase "refactor") (anyCase "cleanup") ++
    .wordEdge

/-- The beginnings of calls to other services and of files read. -/
def outsideCall : Pattern :=
  .wordEdge ++ Pattern.anyText
    ["fetch(", "axios.", "http.get(", "http.request(", "requests.get(", "requests.post(",
     "reqwest::", "invoke(", "readFile(", "read_file("]

/-- The cue of an intent. -/
def cue : Intent → Pattern
  | testing => testCall
  | refactoring => tidyNote
  | integration => outsideCall

end Intent

/-- An intent and how sure it is. -/
structure Signal where
  intent : Intent
  confidence : Signed
  deriving DecidableEq, Repr

namespace Intent

/-- The signal of an intent whose cue was found. -/
def signal (i : Intent) : Signal := ⟨i, i.confidence⟩

/-- The signals of the last `window` lines of a text. -/
def detect (content : List Char) (window : Nat) : List Signal :=
  let tail := Text.lastLines window content
  (all.filter fun i => i.cue.occursIn tail).map signal

end Intent

end CodeInsight
