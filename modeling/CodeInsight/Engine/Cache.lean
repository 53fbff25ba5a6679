import CodeInsight.Insight.Insight
import CodeInsight.Table

/-!
# The cache of insights

* the latest insights of each file that was analysed; an entry is only ever replaced as a whole;
* a file analysed without findings has an empty entry, which is not the same as no entry.
-/

namespace CodeInsight

/-- The latest insights by path. -/
abbrev InsightCache := Table (List Insight)

/-- The insights of a path, none if it has no entry. -/
def InsightCache.insights (c : InsightCache) (path : String) : List Insight :=
  (c.get? path).getD []

end CodeInsight
