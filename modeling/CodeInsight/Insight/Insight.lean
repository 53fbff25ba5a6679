import CodeInsight.Insight.Finding
import CodeInsight.Insight.Identity
import CodeInsight.Time.Instant

/-!
# Insights

* an `Insight` is a finding with an identity and the time at which it was made;
* a `Stamp` is what is given to findings to make insights of them: the number of the first
  identity and the time (`Stamp.mark`).
-/

namespace CodeInsight

/-- A finding that can be told from every other one. -/
structure Insight where
  id : String
  finding : Finding
  timestamp : Instant
  deriving DecidableEq

/-- What is left of insights without their identities and times. -/
def findings (insights : List Insight) : List Finding := insights.map (·.finding)

/-- The identities still free from a number on, and the time. -/
structure Stamp where
  serial : Nat
  time : Instant
  deriving DecidableEq

/-- Findings made insights, with consecutive identities. -/
def Stamp.mark (s : Stamp) : List Finding → List Insight
  | [] => []
  | f :: fs => ⟨Identity.text s.serial, f, s.time⟩ :: Stamp.mark ⟨s.serial + 1, s.time⟩ fs

/-- **Stamping changes no finding.** -/
theorem findings_mark (s : Stamp) (fs : List Finding) : findings (s.mark fs) = fs := by
  induction fs generalizing s with
  | nil => rfl
  | cons f fs ih => simpa [Stamp.mark, findings] using ih ⟨s.serial + 1, s.time⟩

/-- Whether all identities are well formed and no two the same. -/
def identitiesHold (insights : List Insight) : Bool :=
  let ids := insights.map (·.id)
  ids.all Identity.isIdentity && Identity.distinct ids

end CodeInsight
