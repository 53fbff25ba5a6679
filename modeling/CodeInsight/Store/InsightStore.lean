import CodeInsight.Store.RecordStore

/-!
# Stores of insights

* insights are kept in memory, or in a directory of records (`InsightStore`);
* both give back for a path what was last saved for it; the directory may also fail.
-/

namespace CodeInsight

/-- Where insights are kept: in memory, or as records named by a function of the path in a directory
    that has a path itself. -/
inductive InsightStore where
  | memory (table : Table (List Insight))
  | records (naming : String → String) (directoryPath : String) (directory : RecordDirectory)

namespace InsightStore

instance : Inhabited InsightStore := ⟨memory .empty⟩

/-- Saves insights for a path; the outcome, and the store after it. -/
def save (s : InsightStore) (path : String) (insights : List Insight) (time : Instant) :
    Except StoreFault Unit × InsightStore :=
  match s with
  | .memory t => (.ok (), .memory (t.set path insights))
  | .records naming directoryPath d =>
    let (outcome, d') := d.save naming path insights time
    (outcome, .records naming directoryPath d')

/-- The insights saved for a path, if there are any, and what is logged of looking for them. -/
def load (s : InsightStore) (path : String) :
    Except StoreFault (Option (List Insight)) × List LogLine :=
  match s with
  | .memory t => (.ok (t.get? path), [])
  | .records naming directoryPath d => d.load naming directoryPath path

/-- Removes what was saved for every path; the number of paths. -/
def clear (s : InsightStore) : Except StoreFault Nat × InsightStore :=
  match s with
  | .memory t => (.ok t.size, .memory .empty)
  | .records naming directoryPath d =>
    let (outcome, d') := d.clear
    (outcome, .records naming directoryPath d')

end InsightStore

end CodeInsight
