import CodeInsight.Engine.Task
import CodeInsight.Proofs.Insight.Encoding
import CodeInsight.Source.Encoding

/-!
# The formats lose nothing

* what is decoded from its encoding is read back from both layouts, the compact one and the one for
  readers (`Json.ReadBack`), if the encoding is written as it is read (`ReadBack.of_written`);
* tasks, symbols and outlines are decoded from their encodings (`Task.ofJson?_toJson`,
  `Symbol.ofJson?_toJson`, `Outline.ofJson?_toJson`), an outline without its language;
* **insights, tasks and outlines are read back from both layouts** (`Json.formats_lossless`), the
  times in them as those that the calendar has for them;
* so a leap second within a minute is lost (`Json.leap_withinMinute`), and any other time is kept.
-/

namespace CodeInsight

open Json (Written)

/-! ## 1. Both layouts -/

namespace Json

/-- The compact text of what `encode` makes of `a` is read as `b`, and so is the text over several
    lines. -/
structure ReadBack {α : Type} (encode : α → Json) (decode : Json → Option α) (a b : α) : Prop where
  compact : (ofString? (encode a).toText).bind decode = some b
  pretty : (ofString? (encode a).toPrettyText).bind decode = some b

theorem ReadBack.of_written {α : Type} {encode : α → Json} {decode : Json → Option α} {a b : α}
    (written : Written (encode a)) (decoded : decode (encode a) = some b) :
    ReadBack encode decode a b := by
  constructor
  · unfold ofString? toText
    rw [String.toList_ofList, parse?_compact written, Option.bind_some, decoded]
  · unfold ofString? toPrettyText
    rw [String.toList_ofList, parse?_pretty written, Option.bind_some, decoded]

end Json

/-! ## 2. Tasks -/

theorem Priority.ofJson?_toJson (p : Priority) : Priority.ofJson? p.toJson = some p :=
  Json.choice?_ofText (by cases p <;> decide) (by cases p <;> decide)

theorem TaskKind.ofJson?_toJson (k : TaskKind) : TaskKind.ofJson? k.toJson = some k :=
  Json.choice?_ofText (by cases k <;> decide) (by cases k <;> decide)

namespace Task

/-- The task with the time that the calendar has for its time. -/
def civil (t : Task) : Task := { t with enqueuedAt := t.enqueuedAt.civil }

/-- A task keeps its time exactly if the calendar has it. -/
theorem civil_eq_iff {t : Task} : t.civil = t ↔ t.enqueuedAt.isCivil = true := by
  refine ⟨fun h => Instant.civil_eq_iff.mp (congrArg enqueuedAt h), fun h => ?_⟩
  rw [civil, Instant.civil_of_isCivil h]

/-- **A task is decoded from its encoding** with the time that the calendar has for its time. -/
theorem ofJson?_toJson (t : Task) : ofJson? t.toJson = some t.civil := by
  have fields := Json.record?_record fieldNames
    [("id", Json.ofText t.id), ("filePath", Json.ofText t.path), ("priority", t.priority.toJson),
      ("kind", t.kind.toJson), ("enqueuedAt", t.enqueuedAt.toJson)] rfl (by decide)
  unfold ofJson? toJson
  rw [fields]
  simp [Json.field?, List.lookup_cons, Priority.ofJson?_toJson, TaskKind.ofJson?_toJson,
    Instant.ofJson?_toJson, civil]

theorem written_toJson (t : Task) : Written t.toJson := by
  refine Json.written_record ?_
  simp only [List.forall_mem_cons]
  exact ⟨Json.written_ofText _, Json.written_ofText _, Json.written_ofText _,
    Json.written_ofText _, t.enqueuedAt.written_toJson, nofun⟩

end Task

/-! ## 3. Symbols and outlines -/

theorem SymbolKind.choice?_ofText (k : SymbolKind) :
    Json.choice? SymbolKind.name SymbolKind.all (Json.ofText k.name) = some k :=
  Json.choice?_ofText (by cases k <;> decide) (by cases k <;> decide)

namespace Symbol

/-- The line and the column have 64 bits. -/
def Fits (s : Symbol) : Prop := s.line < Json.wordBound ∧ s.column < Json.wordBound

/-- The members of a symbol's encoding, the signature as a text or null. -/
def members (s : Symbol) : List (String × Json) :=
  [("kind", Json.ofText s.kind.name), ("name", Json.ofText s.name), ("line", Json.ofNat s.line),
    ("column", Json.ofNat s.column), ("signature", (s.signature.map Json.ofText).getD .null),
    ("is_exported", .bool s.isExported)]

theorem toJson_eq (s : Symbol) : s.toJson = Json.record s.members := by
  unfold toJson members
  cases s.signature with
  | none => rfl
  | some t => rfl

/-- **A symbol is decoded from its encoding**, with a signature or without one. -/
theorem ofJson?_toJson {s : Symbol} (h : s.Fits) : ofJson? s.toJson = some s := by
  obtain ⟨line, column⟩ := h
  have fields := Json.record?_record fieldNames s.members rfl (by decide)
  have signature : Json.nullable? Json.text? ((s.signature.map Json.ofText).getD .null) =
      some s.signature := by
    cases s.signature with
    | none => rfl
    | some t =>
      show (Json.ofText t).text?.map some = some (some t)
      rw [Json.text?_ofText, Option.map_some]
  rw [toJson_eq]
  unfold ofJson?
  rw [fields]
  simp [members, Json.field?, List.lookup_cons, SymbolKind.choice?_ofText,
    Json.nat64?_ofNat line, Json.nat64?_ofNat column, signature, Json.bool?]

theorem written_toJson (s : Symbol) : Written s.toJson := by
  rw [toJson_eq]
  refine Json.written_record ?_
  simp only [members, List.forall_mem_cons]
  refine ⟨Json.written_ofText _, Json.written_ofText _, Json.written_ofNat _, Json.written_ofNat _,
    ?_, .bool _, nofun⟩
  cases s.signature with
  | none => exact .null
  | some t => exact Json.written_ofText t

end Symbol

namespace Outline

/-- **An outline is decoded from its encoding**, but for its language. -/
theorem ofJson?_toJson {o : Outline} (h : ∀ s ∈ o.symbols, s.Fits) :
    ofJson? o.toJson = some { o with language := none } := by
  have fields := Json.record?_record fieldNames
    [("file_path", Json.ofText o.path), ("symbols", .array (o.symbols.map Symbol.toJson)),
      ("imports", .array (o.imports.map Json.ofText))] rfl (by decide)
  have symbols := Json.list?_map_self fun s hs => Symbol.ofJson?_toJson (h s hs)
  have imports : Json.list? Json.text? (.array (o.imports.map Json.ofText)) = some o.imports :=
    Json.list?_map_self fun t _ => Json.text?_ofText t
  unfold ofJson? toJson
  rw [fields]
  simp [Json.field?, List.lookup_cons, symbols, imports]

theorem written_toJson (o : Outline) : Written o.toJson := by
  refine Json.written_record ?_
  simp only [List.forall_mem_cons]
  exact ⟨Json.written_ofText _, Json.written_list fun s _ => s.written_toJson,
    Json.written_list fun t _ => Json.written_ofText t, nofun⟩

end Outline

/-! ## 4. The formats -/

namespace Json

/-- **Insights, tasks and outlines are read back from both layouts** as they were, but for two
    things: the language of an outline is not written, and a time is read as the one that the
    calendar has for it. So insights and tasks are kept exactly if their times have no leap second
    within a minute. The texts in them are any texts and the times any instants; the lines and
    columns of insights and symbols have 64 bits. -/
theorem formats_lossless (insights : List Insight) (task : Task) (outline : Outline)
    (insightsFit : ∀ i ∈ insights, i.InWords) (symbolsFit : ∀ s ∈ outline.symbols, s.Fits) :
    ReadBack Insight.listToJson Insight.listOfJson? insights (insights.map Insight.civil) ∧
    (insights.map Insight.civil = insights ↔
      ∀ i ∈ insights, i.timestamp.nano < Instant.nanosPerSecond ∨ i.timestamp.second % 60 = 59) ∧
    ReadBack Task.toJson Task.ofJson? task task.civil ∧
    (task.civil = task ↔
      task.enqueuedAt.nano < Instant.nanosPerSecond ∨ task.enqueuedAt.second % 60 = 59) ∧
    ReadBack Outline.toJson Outline.ofJson? outline { outline with language := none } := by
  refine ⟨?_, ?_, ?_, ?_, ?_⟩
  · exact .of_written (Insight.written_listToJson insights)
      (Insight.listOfJson?_listToJson insightsFit)
  · rw [Insight.map_civil_eq_iff]
    exact forall₂_congr fun i _ => Instant.isCivil_iff
  · exact .of_written task.written_toJson task.ofJson?_toJson
  · rw [Task.civil_eq_iff, Instant.isCivil_iff]
  · exact .of_written outline.written_toJson (Outline.ofJson?_toJson symbolsFit)

/-- The last instant there is, at the end of a leap second. -/
def lastLeap : Instant := ⟨Instant.last, 1999999999, by decide, by decide⟩

/-- A text of a quotation mark, a backslash, a NUL, a line feed and a sign above 16 bits. -/
def hardText : String := "\"\\\x00\n𝄞"

theorem formats_lossless_bounds :
    let insight : Insight :=
      ⟨"", ⟨hardText, 18446744073709551615, 0, .error, .smell, hardText⟩, lastLeap⟩
    let task := Task.of hardText .high .full lastLeap
    let outline : Outline :=
      ⟨hardText, some .typeScript, [⟨.function, "f", 1, 18446744073709551615, none, true⟩], []⟩
    ReadBack Insight.listToJson Insight.listOfJson? [insight] [insight] ∧
    ReadBack Task.toJson Task.ofJson? task task ∧
    ReadBack Outline.toJson Outline.ofJson? outline { outline with language := none } := by
  intro insight task outline
  obtain ⟨insights, kept, tasks, taskKept, outlines⟩ := formats_lossless [insight] task outline
    (List.forall_mem_singleton.mpr ⟨by decide, by decide⟩)
    (List.forall_mem_singleton.mpr ⟨by decide, by decide⟩)
  have same : [insight].map Insight.civil = [insight] :=
    kept.mpr (List.forall_mem_singleton.mpr (.inr (by decide)))
  have sameTask : task.civil = task := taskKept.mpr (.inr (by decide))
  rw [same] at insights
  rw [sameTask] at tasks
  exact ⟨insights, tasks, outlines⟩

/-- Half a leap second after second 30 of a minute. -/
def leapWithinMinute : Instant := ⟨30, 1500000000, by decide, by decide⟩

theorem civil_leapWithinMinute :
    leapWithinMinute.civil = ⟨31, 500000000, by decide, by decide⟩ := by
  have within : ¬ leapWithinMinute.isCivil = true := by decide
  rw [Instant.civil, dif_neg within]
  exact Instant.ext rfl (by simp [leapWithinMinute, Instant.nanosPerSecond])

/-- **A leap second within a minute is lost**: a task of that time is read back, from both layouts,
    as the task of half a second after second 31. -/
theorem leap_withinMinute :
    let task := Task.of "a.ts" .medium .full leapWithinMinute
    let after : Task := { task with enqueuedAt := ⟨31, 500000000, by decide, by decide⟩ }
    ReadBack Task.toJson Task.ofJson? task after ∧ after ≠ task ∧
    ¬ ReadBack Task.toJson Task.ofJson? task task := by
  intro task after
  have moved : task.civil = after :=
    congrArg (fun time => { task with enqueuedAt := time }) civil_leapWithinMinute
  have other : after ≠ task := fun same =>
    absurd (congrArg (fun t => t.enqueuedAt.second) same) (show (31 : Int) ≠ 30 by decide)
  have read : ReadBack Task.toJson Task.ofJson? task after := by
    rw [← moved]
    exact .of_written task.written_toJson task.ofJson?_toJson
  exact ⟨read, other, fun same => other (Option.some.inj (read.compact.symm.trans same.compact))⟩

end Json

end CodeInsight
