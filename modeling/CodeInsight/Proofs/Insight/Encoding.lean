import CodeInsight.Insight.Encoding
import CodeInsight.Proofs.Time.Text

/-!
# Insights and instants through JSON

* **the encoding of an instant is decoded as the one that the calendar has for it**
  (`Instant.ofJson?_toJson`), and so is the encoding of an insight whose line and column have 64
  bits (`Insight.ofJson?_toJson`, `Insight.listOfJson?_listToJson`);
* insights whose times the calendar has besides are decoded as they were
  (`Insight.listOfJson?_of_fits`);
* the encodings are written as they are read (`Insight.written_listToJson`).
-/

namespace CodeInsight

open Json (Written)

/-- **The encoding of an instant is decoded as the instant that the calendar has for it.** -/
theorem Instant.ofJson?_toJson (t : Instant) : Instant.ofJson? t.toJson = some t.civil := by
  unfold ofJson? toJson
  rw [Json.text?_of_plain (isPlain_text t), Option.bind_some, String.toList_ofList, read?_text]

theorem Instant.written_toJson (t : Instant) : Written t.toJson :=
  Json.written_of_plain (isPlain_text t)

theorem Severity.ofJson?_toJson (s : Severity) : Severity.ofJson? s.toJson = some s :=
  Json.choice?_ofText (by cases s <;> decide) (by cases s <;> decide)

theorem Category.ofJson?_toJson (c : Category) : Category.ofJson? c.toJson = some c :=
  Json.choice?_ofText (by cases c <;> decide) (by cases c <;> decide)

namespace Insight

/-- The line and the column have 64 bits. -/
def InWords (i : Insight) : Prop :=
  i.finding.line < Json.wordBound ∧ i.finding.column < Json.wordBound

/-- An insight that can be told from its encoding: the line and the column have 64 bits, and the
    calendar has the time. -/
def Fits (i : Insight) : Prop := i.InWords ∧ i.timestamp.isCivil = true

instance (i : Insight) : Decidable i.InWords := inferInstanceAs (Decidable (_ ∧ _))

instance (i : Insight) : Decidable i.Fits := inferInstanceAs (Decidable (_ ∧ _))

/-- The insight with the time that the calendar has for its time. -/
def civil (i : Insight) : Insight := { i with timestamp := i.timestamp.civil }

theorem civil_eq_iff {i : Insight} : i.civil = i ↔ i.timestamp.isCivil = true := by
  refine ⟨fun h => Instant.civil_eq_iff.mp (congrArg timestamp h), fun h => ?_⟩
  rw [civil, Instant.civil_of_isCivil h]

/-- Insights keep their times exactly if the calendar has them. -/
theorem map_civil_eq_iff {is : List Insight} :
    is.map civil = is ↔ ∀ i ∈ is, i.timestamp.isCivil = true := by
  have same : is.map civil = is.map (fun i => i) ↔ ∀ i ∈ is, i.civil = i := List.map_inj_left
  rw [List.map_id'] at same
  exact same.trans (forall₂_congr fun i _ => civil_eq_iff)

/-- **An insight is decoded from its encoding** with the time that the calendar has for its time. -/
theorem ofJson?_toJson {i : Insight} (h : i.InWords) : ofJson? i.toJson = some i.civil := by
  obtain ⟨line, column⟩ := h
  have fields := Json.record?_record fieldNames
    (("id", Json.ofText i.id) :: (i.finding.members ++ [("timestamp", i.timestamp.toJson)])) rfl
    (by decide)
  unfold ofJson? toJson
  rw [fields]
  simp [Json.field?, Finding.ofFields?, Finding.members, List.lookup_cons, Json.nat64?_ofNat line,
    Json.nat64?_ofNat column, Severity.ofJson?_toJson, Category.ofJson?_toJson,
    Instant.ofJson?_toJson, civil]

theorem written_toJson (i : Insight) : Written i.toJson := by
  refine Json.written_record fun m hm => ?_
  simp only [Finding.members, List.mem_cons, List.cons_append, List.nil_append,
    List.not_mem_nil, or_false] at hm
  rcases hm with rfl | rfl | rfl | rfl | rfl | rfl | rfl | rfl
  case inr.inr.inl => exact Json.written_ofNat _
  case inr.inr.inr.inl => exact Json.written_ofNat _
  case inr.inr.inr.inr.inr.inr.inr => exact i.timestamp.written_toJson
  all_goals exact Json.written_ofText _

/-- **Insights are decoded from their encoding**, each with the time that the calendar has for its
    time. -/
theorem listOfJson?_listToJson {is : List Insight} (h : ∀ i ∈ is, i.InWords) :
    listOfJson? (listToJson is) = some (is.map civil) :=
  Json.list?_map fun i hi => ofJson?_toJson (h i hi)

/-- Insights that can be told from their encoding are decoded as they were. -/
theorem listOfJson?_of_fits {is : List Insight} (h : ∀ i ∈ is, i.Fits) :
    listOfJson? (listToJson is) = some is := by
  rw [listOfJson?_listToJson fun i hi => (h i hi).1, map_civil_eq_iff.mpr fun i hi => (h i hi).2]

theorem written_listToJson (is : List Insight) : Written (listToJson is) :=
  Json.written_list fun i _ => i.written_toJson

end Insight

end CodeInsight
