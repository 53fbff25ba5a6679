import CodeInsight.Proofs.Store.Unfinished

/-!
# Saves that overlap

* saves are asked for at any time and go on in any order, each a step at a time (`Saves`,
  `Saves.act`); what became of the draft of a name is told by the steps made (`fate`);
* after any such actions in a directory of files, drafts and records are whole texts of saves, and
  `Saves.Sound` says which (`Saves.sound_after`);
* a save **succeeds just if its draft was not taken by another save of its name**, so one that
  shares its name with none succeeds; and once a save has ended, what is loaded for its path is what
  one of the saves with its name was asked to save (`Saves.overlapping_ended`);
* two saves of one path can get into each other's way (`Saves.overlapping_taken`): they share the
  draft, and the one that comes second finds it gone.
-/

namespace CodeInsight

/-- The phases a save has left behind, the last one first. -/
def SavePhase.before : SavePhase → List SavePhase
  | begun => []
  | roomMade => [begun]
  | drafted => [roomMade, begun]
  | ended _ => [drafted, roomMade, begun]

/-- What happens next: another save is asked for, or one goes on with its next step. -/
inductive SaveAction where
  | ask (x : Saving)
  | goOn (i : Nat)

/-- A step that was made: by which save, and from which phase. -/
structure SaveMoment where
  index : Nat
  saving : Saving
  phase : SavePhase

/-- Saves in one directory: all that were asked for, with how far each has come, and the steps they
    have made, the last one first. -/
structure Saves where
  directory : RecordDirectory
  saves : List (Saving × SavePhase)
  past : List SaveMoment

/-- What became of the draft of a name: no step was about it, or the last such step wrote it or took
    it. -/
inductive DraftFate where
  | untouched
  | written
  | taken
  deriving DecidableEq

namespace Saves

open RecordDirectory

/-! ## 1. Steps in any order -/

/-- What was asked to be saved. -/
def asked (s : Saves) : List Saving := s.saves.map (·.1)

/-- What an action makes of the saves. A save that has ended does not go on. -/
def act (naming : String → String) (s : Saves) : SaveAction → Saves
  | .ask x => { s with saves := s.saves ++ [(x, .begun)] }
  | .goOn i =>
    match s.saves[i]? with
    | none => s
    | some (_, .ended _) => s
    | some (x, phase) =>
      let (phase', d) := saveStep naming x (phase, s.directory)
      ⟨d, s.saves.set i (x, phase'), ⟨i, x, phase⟩ :: s.past⟩

/-- The saves after actions in a directory. -/
def after (naming : String → String) (d : RecordDirectory) (actions : List SaveAction) : Saves :=
  actions.foldl (act naming) ⟨d, [], []⟩

/-- The fate of the draft of a name after steps. -/
def fate (naming : String → String) (name : String) : List SaveMoment → DraftFate
  | [] => .untouched
  | m :: past =>
    if naming m.saving.path = name then
      match m.phase with
      | .roomMade => .written
      | .drafted => .taken
      | _ => fate naming name past
    else fate naming name past

section Fate

variable {naming : String → String} {name : String} {past : List SaveMoment}

/-- A draft was taken by a step that takes it. -/
theorem exists_drafted_of_fate (h : fate naming name past = .taken) :
    ∃ m ∈ past, naming m.saving.path = name ∧ m.phase = .drafted := by
  induction past with
  | nil => cases h
  | cons m past ih =>
    obtain ⟨i, x, phase⟩ := m
    by_cases own : naming x.path = name
    · cases phase with
      | drafted => exact ⟨_, List.mem_cons_self, own, rfl⟩
      | roomMade => simp [fate, own] at h
      | begun =>
        obtain ⟨m, hm, taken⟩ := ih (by simpa [fate, own] using h)
        exact ⟨m, List.mem_cons_of_mem _ hm, taken⟩
      | ended outcome =>
        obtain ⟨m, hm, taken⟩ := ih (by simpa [fate, own] using h)
        exact ⟨m, List.mem_cons_of_mem _ hm, taken⟩
    · obtain ⟨m, hm, taken⟩ := ih (by simpa [fate, own] using h)
      exact ⟨m, List.mem_cons_of_mem _ hm, taken⟩

/-- A draft that was written was touched. -/
theorem fate_ne_untouched
    (h : ∃ m ∈ past, naming m.saving.path = name ∧ m.phase = .roomMade) :
    fate naming name past ≠ .untouched := by
  induction past with
  | nil => simp at h
  | cons m past ih =>
    obtain ⟨i, x, phase⟩ := m
    obtain ⟨m', hm', own', written⟩ := h
    rcases List.mem_cons.mp hm' with rfl | earlier
    · dsimp only at own' written
      simp [fate, own', written]
    · have rest := ih ⟨m', earlier, own', written⟩
      by_cases own : naming x.path = name
      · cases phase with
        | begun => simpa [fate, own] using rest
        | roomMade => simp [fate, own]
        | drafted => simp [fate, own]
        | ended outcome => simpa [fate, own] using rest
      · simpa [fate, own] using rest

/-- A save that has made its first two steps has written its draft, so something has become of
    it. -/
theorem fate_ne_untouched_of_steps {i : Nat} {x : Saving}
    (own : past.filter (·.index = i) = [⟨i, x, .roomMade⟩, ⟨i, x, .begun⟩]) :
    fate naming (naming x.path) past ≠ .untouched := by
  refine fate_ne_untouched ⟨⟨i, x, .roomMade⟩, ?_, rfl, rfl⟩
  refine List.mem_of_mem_filter (p := fun m => m.index = i) ?_
  rw [own]
  exact List.mem_cons_self

end Fate

/-! ## 2. Contents -/

section Contents

variable {naming : String → String} {p q name other : String} {entries : Table RecordEntry}

theorem draftName_eq_iff : draftName naming p = draftName naming q ↔ naming p = naming q := by
  constructor
  · intro h
    have h := congrArg String.toList h
    simp only [draftName, String.toList_append] at h
    exact String.toList_inj.mp (List.append_cancel_right h)
  · exact congrArg (· ++ ".tmp")

theorem contentAt_set_self (entries : Table RecordEntry) (name : String) (content : List UInt8) :
    (present (entries.set name (.file content))).contentAt name = .ok (some content) := by
  simp [contentAt]

theorem contentAt_set_ne (entries : Table RecordEntry) (entry : RecordEntry) (h : other ≠ name) :
    (present (entries.set name entry)).contentAt other = (present entries).contentAt other := by
  simp [contentAt, Table.get?_set_ne _ _ h]

theorem contentAt_erase_self (entries : Table RecordEntry) (name : String) :
    (present (entries.erase name)).contentAt name = .ok none := by
  simp [contentAt]

theorem contentAt_erase_ne (entries : Table RecordEntry) (h : other ≠ name) :
    (present (entries.erase name)).contentAt other = (present entries).contentAt other := by
  simp [contentAt, Table.get?_erase_ne _ h]

theorem get?_of_contentAt {content : List UInt8}
    (h : (present entries).contentAt name = .ok (some content)) :
    entries.get? name = some (.file content) := by
  unfold contentAt at h
  dsimp only at h
  split at h
  · cases h
  · cases h
  · rename_i there
    cases h
    exact there

theorem get?_of_contentAt_none (h : (present entries).contentAt name = .ok none) :
    entries.get? name = none := by
  unfold contentAt at h
  dsimp only at h
  split at h
  · assumption
  · cases h
  · cases h

end Contents

/-! ## 3. What is kept -/

/-- What is true of saves that overlap in a directory of files: each save has made the steps that
    lead to where it is; each draft is the whole text of a save or has been taken; each record that
    was named is the whole text of a save; and a save succeeded just if its draft was there when it
    was to be taken. -/
structure Sound (naming : String → String) (s : Saves) : Prop where
  regular : s.directory.Regular
  there : ∀ (i : Nat) (x : Saving) (phase : SavePhase), s.saves[i]? = some (x, phase) →
    phase ≠ .begun → ∃ entries, s.directory = .present entries
  steps : ∀ (i : Nat) (x : Saving) (phase : SavePhase), s.saves[i]? = some (x, phase) →
    s.past.filter (·.index = i) = phase.before.map fun p => ⟨i, x, p⟩
  known : ∀ m ∈ s.past, ∃ phase, s.saves[m.index]? = some (m.saving, phase)
  written : ∀ p, fate naming (naming p) s.past = .written →
    ∃ y ∈ s.asked, naming y.path = naming p ∧
      s.directory.contentAt (draftName naming p) = .ok (some (FileTree.encode y.record.text))
  taken : ∀ p, fate naming (naming p) s.past = .taken →
    s.directory.contentAt (draftName naming p) = .ok none
  named : ∀ p, (∃ m ∈ s.past, naming m.saving.path = naming p ∧ m.phase = .drafted) →
    ∃ y ∈ s.asked, naming y.path = naming p ∧
      s.directory.contentAt (recordName naming p) = .ok (some (FileTree.encode y.record.text))
  outcomes : ∀ (i : Nat) (x : Saving) (outcome : Except StoreFault Unit),
    s.saves[i]? = some (x, .ended outcome) →
    ∃ later earlier, s.past = later ++ ⟨i, x, .drafted⟩ :: earlier ∧
      outcome = if fate naming (naming x.path) earlier = .written then .ok ()
        else .error (.file .missing)

section Step

variable {naming : String → String} {s : Saves} {i : Nat} {x : Saving} {phase phase' : SavePhase}
variable {d' : RecordDirectory}

theorem asked_set (here : s.saves[i]? = some (x, phase)) (phase' : SavePhase) :
    (s.saves.set i (x, phase')).map (·.1) = s.asked := by
  have there : s.asked[i]? = some x := by simp [asked, here]
  obtain ⟨short, there⟩ := List.getElem?_eq_some_iff.mp there
  rw [List.map_set]
  dsimp only
  rw [← there]
  exact List.set_getElem_self short

theorem mem_asked (here : s.saves[i]? = some (x, phase)) : x ∈ s.asked :=
  List.mem_map_of_mem (List.mem_of_getElem? here)

/-- Another save that is asked for changes nothing for those that are there. -/
theorem Sound.ask (h : Sound naming s) (x : Saving) : Sound naming (s.act naming (.ask x)) := by
  have old : ∀ {i : Nat} {y : Saving} {phase : SavePhase},
      (s.saves ++ [(x, .begun)])[i]? = some (y, phase) →
      s.saves[i]? = some (y, phase) ∨ (i = s.saves.length ∧ y = x ∧ phase = .begun) := by
    intro i y phase here
    rcases Nat.lt_trichotomy i s.saves.length with before | same | after
    · exact .inl (by rwa [List.getElem?_append_left before] at here)
    · subst same
      simp at here
      exact .inr ⟨rfl, here.1.symm, here.2.symm⟩
    · rw [List.getElem?_eq_none (by simp; omega)] at here
      cases here
  have kept : ∀ {i : Nat} {y : Saving} {phase : SavePhase}, s.saves[i]? = some (y, phase) →
      (s.saves ++ [(x, .begun)])[i]? = some (y, phase) := by
    intro i y phase here
    rw [List.getElem?_append_left (List.getElem?_eq_some_iff.mp here).1]
    exact here
  have more : ∀ {y}, y ∈ s.asked → y ∈ (s.act naming (.ask x)).asked := by
    intro y hy
    simp only [act, asked, List.map_append]
    exact List.mem_append_left _ hy
  refine ⟨h.regular, fun i y phase here begun => ?_, fun i y phase here => ?_, fun m hm => ?_,
    fun p fate => ?_, h.taken, fun p named => ?_, fun i y outcome here => ?_⟩
  · rcases old here with here | ⟨-, -, rfl⟩
    · exact h.there i y phase here begun
    · exact absurd rfl begun
  · rcases old here with here | ⟨rfl, rfl, rfl⟩
    · exact h.steps i y phase here
    · refine List.filter_eq_nil_iff.mpr fun m hm => ?_
      obtain ⟨phase, known⟩ := h.known m hm
      have before := (List.getElem?_eq_some_iff.mp known).1
      simp
      omega
  · obtain ⟨phase, known⟩ := h.known m hm
    exact ⟨phase, kept known⟩
  · obtain ⟨y, hy, draft⟩ := h.written p fate
    exact ⟨y, more hy, draft⟩
  · obtain ⟨y, hy, record⟩ := h.named p named
    exact ⟨y, more hy, record⟩
  · rcases old here with here | ⟨-, -, ended⟩
    · exact h.outcomes i y outcome here
    · cases ended

/-- What a step has to keep for the directory, if its save comes from one phase to the next. -/
theorem Sound.goOn (h : Sound naming s) (here : s.saves[i]? = some (x, phase))
    (next : phase'.before = phase :: phase.before) (regular : d'.Regular)
    (there : ∃ entries, d' = .present entries)
    (written : ∀ p, fate naming (naming p) (⟨i, x, phase⟩ :: s.past) = .written →
      ∃ y ∈ s.asked, naming y.path = naming p ∧
        d'.contentAt (draftName naming p) = .ok (some (FileTree.encode y.record.text)))
    (taken : ∀ p, fate naming (naming p) (⟨i, x, phase⟩ :: s.past) = .taken →
      d'.contentAt (draftName naming p) = .ok none)
    (named : ∀ p, (∃ m ∈ s.past, naming m.saving.path = naming p ∧ m.phase = .drafted) ∨
        (naming x.path = naming p ∧ phase = .drafted) →
      ∃ y ∈ s.asked, naming y.path = naming p ∧
        d'.contentAt (recordName naming p) = .ok (some (FileTree.encode y.record.text)))
    (ended : ∀ outcome, phase' = .ended outcome → phase = .drafted ∧
      outcome = if fate naming (naming x.path) s.past = .written then .ok ()
        else .error (.file .missing)) :
    Sound naming ⟨d', s.saves.set i (x, phase'), ⟨i, x, phase⟩ :: s.past⟩ := by
  have short := (List.getElem?_eq_some_iff.mp here).1
  have same : (⟨d', s.saves.set i (x, phase'), ⟨i, x, phase⟩ :: s.past⟩ : Saves).asked = s.asked :=
    asked_set here phase'
  have old : ∀ {j : Nat} {y : Saving} {phase'' : SavePhase},
      (s.saves.set i (x, phase'))[j]? = some (y, phase'') →
      (j = i ∧ y = x ∧ phase'' = phase') ∨ (i ≠ j ∧ s.saves[j]? = some (y, phase'')) := by
    intro j y phase'' there
    by_cases own : i = j
    · subst own
      rw [List.getElem?_set_self short] at there
      cases there
      exact .inl ⟨rfl, rfl, rfl⟩
    · rw [List.getElem?_set_ne own] at there
      exact .inr ⟨own, there⟩
  refine ⟨regular, fun _ _ _ _ _ => there, fun j y phase'' here' => ?_, fun m hm => ?_,
    same ▸ written, taken, fun p earlier => ?_, fun j y outcome here' => ?_⟩
  · rcases old here' with ⟨rfl, rfl, rfl⟩ | ⟨other, here'⟩
    · rw [next, List.filter_cons_of_pos (by simp), h.steps j y phase here, List.map_cons]
    · rw [List.filter_cons_of_neg (by simpa using other)]
      exact h.steps j y phase'' here'
  · rcases List.mem_cons.mp hm with rfl | earlier
    · exact ⟨phase', List.getElem?_set_self short⟩
    · obtain ⟨phase'', known⟩ := h.known m earlier
      by_cases own : i = m.index
      · have saving : m.saving = x := by
          rw [← own, here] at known
          cases known
          rfl
        subst own
        exact ⟨phase', by rw [saving]; exact List.getElem?_set_self short⟩
      · exact ⟨phase'', by rw [List.getElem?_set_ne own]; exact known⟩
  · rw [same]
    obtain ⟨m, hm, own, drafted⟩ := earlier
    rcases List.mem_cons.mp hm with rfl | earlier
    · exact named p (.inr ⟨own, drafted⟩)
    · exact named p (.inl ⟨m, earlier, own, drafted⟩)
  · rcases old here' with ⟨rfl, rfl, rfl⟩ | ⟨-, here'⟩
    · obtain ⟨rfl, outcome⟩ := ended outcome rfl
      exact ⟨[], s.past, rfl, outcome⟩
    · obtain ⟨later, before, split, outcome⟩ := h.outcomes j y outcome here'
      exact ⟨⟨i, x, phase⟩ :: later, before, by rw [split]; rfl, outcome⟩

theorem Sound.room (h : Sound naming s) (here : s.saves[i]? = some (x, .begun)) :
    Sound naming (s.act naming (.goOn i)) := by
  obtain ⟨entries, step, regular, same⟩ := saveStep_begun naming x h.regular
  simp only [act, here, step]
  refine h.goOn here rfl regular ⟨entries, rfl⟩ (fun p fate => ?_) (fun p fate => ?_)
    (fun p named => ?_) (fun outcome ended => by cases ended)
  · rw [same]
    exact h.written p (by simpa [Saves.fate] using fate)
  · rw [same]
    exact h.taken p (by simpa [Saves.fate] using fate)
  · rw [same]
    exact h.named p (named.resolve_right (by simp))

theorem Sound.draft (h : Sound naming s) (here : s.saves[i]? = some (x, .roomMade)) :
    Sound naming (s.act naming (.goOn i)) := by
  obtain ⟨entries, there⟩ := h.there i x _ here (by simp)
  have regular : (present entries).Regular := there ▸ h.regular
  simp only [act, here, there, saveStep_roomMade regular]
  refine h.goOn here rfl (regular.set _ _) ⟨_, rfl⟩ (fun p fate => ?_) (fun p fate => ?_)
    (fun p named => ?_) (fun outcome ended => by cases ended)
  · by_cases own : naming x.path = naming p
    · refine ⟨x, mem_asked here, own, ?_⟩
      rw [← draftName_eq_iff.mpr own]
      exact contentAt_set_self _ _ _
    · rw [contentAt_set_ne _ _ (mt draftName_eq_iff.mp (Ne.symm own)), ← there]
      exact h.written p (by simpa [Saves.fate, own] using fate)
  · have other : naming x.path ≠ naming p := by
      intro own
      simp [Saves.fate, own] at fate
    rw [contentAt_set_ne _ _ (mt draftName_eq_iff.mp (Ne.symm other)), ← there]
    exact h.taken p (by simpa [Saves.fate, other] using fate)
  · rw [contentAt_set_ne _ _ (recordName_ne_draftName p x.path), ← there]
    exact h.named p (named.resolve_right (by simp))

theorem Sound.take (h : Sound naming s) (here : s.saves[i]? = some (x, .drafted))
    (written : fate naming (naming x.path) s.past = .written) :
    Sound naming (s.act naming (.goOn i)) := by
  obtain ⟨entries, there⟩ := h.there i x _ here (by simp)
  have regular : (present entries).Regular := there ▸ h.regular
  obtain ⟨y, hy, same, draft⟩ := h.written x.path written
  rw [there] at draft
  simp only [act, here, there, saveStep_drafted regular (get?_of_contentAt draft)]
  refine h.goOn here rfl ((regular.erase _).set _ _) ⟨_, rfl⟩ (fun p fate => ?_)
    (fun p fate => ?_) (fun p named => ?_)
    (fun outcome ended => ⟨rfl, by cases ended; rw [if_pos written]⟩)
  · have other : naming x.path ≠ naming p := by
      intro own
      simp [Saves.fate, own] at fate
    rw [contentAt_set_ne _ _ (recordName_ne_draftName x.path p).symm,
      contentAt_erase_ne _ (mt draftName_eq_iff.mp (Ne.symm other)), ← there]
    exact h.written p (by simpa [Saves.fate, other] using fate)
  · rw [contentAt_set_ne _ _ (recordName_ne_draftName x.path p).symm]
    by_cases own : naming x.path = naming p
    · rw [← draftName_eq_iff.mpr own]
      exact contentAt_erase_self _ _
    · rw [contentAt_erase_ne _ (mt draftName_eq_iff.mp (Ne.symm own)), ← there]
      exact h.taken p (by simpa [Saves.fate, own] using fate)
  · by_cases own : naming x.path = naming p
    · refine ⟨y, hy, same.trans own, ?_⟩
      have record : recordName naming x.path = recordName naming p := congrArg (· ++ ".json") own
      rw [← record]
      exact contentAt_set_self _ _ _
    · have other : recordName naming p ≠ recordName naming x.path :=
        fun same => own (recordName_inj same).symm
      rw [contentAt_set_ne _ _ other, contentAt_erase_ne _ (recordName_ne_draftName p x.path),
        ← there]
      exact h.named p (named.resolve_right fun own' => own own'.1)

theorem Sound.miss (h : Sound naming s) (here : s.saves[i]? = some (x, .drafted))
    (taken : fate naming (naming x.path) s.past = .taken) :
    Sound naming (s.act naming (.goOn i)) := by
  obtain ⟨entries, there⟩ := h.there i x _ here (by simp)
  have gone := h.taken x.path taken
  rw [there] at gone
  simp only [act, here, there, saveStep_undrafted (get?_of_contentAt_none gone)]
  refine h.goOn here rfl (there ▸ h.regular) ⟨_, rfl⟩ (fun p fate => ?_)
    (fun p fate => ?_) (fun p named => ?_)
    (fun outcome ended => ⟨rfl, by cases ended; rw [if_neg (by simp [taken])]⟩)
  · have other : naming x.path ≠ naming p := by
      intro own
      simp [Saves.fate, own] at fate
    rw [← there]
    exact h.written p (by simpa [Saves.fate, other] using fate)
  · rw [← there]
    by_cases own : naming x.path = naming p
    · rw [← draftName_eq_iff.mpr own, there]
      exact gone
    · exact h.taken p (by simpa [Saves.fate, own] using fate)
  · rw [← there]
    refine h.named p (named.elim id fun own => ?_)
    rw [← own.1]
    exact exists_drafted_of_fate taken

/-- **Every action keeps it.** -/
theorem Sound.act (h : Sound naming s) (a : SaveAction) : Sound naming (s.act naming a) := by
  cases a with
  | ask x => exact h.ask x
  | goOn i =>
    cases here : s.saves[i]? with
    | none => simpa [Saves.act, here] using h
    | some save =>
      obtain ⟨x, phase⟩ := save
      cases phase with
      | begun => exact h.room here
      | roomMade => exact h.draft here
      | drafted =>
        cases fate : fate naming (naming x.path) s.past with
        | untouched => exact absurd fate (fate_ne_untouched_of_steps (h.steps i x _ here))
        | written => exact h.take here fate
        | taken => exact h.miss here fate
      | ended outcome => simpa [Saves.act, here] using h

/-- **After any actions in a directory of files it holds.** -/
theorem sound_after {d : RecordDirectory} (regular : d.Regular) (naming : String → String)
    (actions : List SaveAction) : Sound naming (after naming d actions) := by
  induction actions using List.reverseRecOn with
  | nil => exact ⟨regular, by simp [after], by simp [after], by simp [after], by simp [after, fate],
      by simp [after, fate], by simp [after], by simp [after]⟩
  | append_singleton actions a ih =>
    rw [after, List.foldl_append]
    exact ih.act a

end Step

/-! ## 4. Saves that have ended -/

section Ended

variable {naming : String → String} {d : RecordDirectory} {x y : Saving} {p : String}

theorem asked_goOn (naming : String → String) (s : Saves) (i : Nat) :
    (s.act naming (.goOn i)).asked = s.asked := by
  cases here : s.saves[i]? with
  | none => simp only [act, here]
  | some save =>
    obtain ⟨x, phase⟩ := save
    cases phase with
    | ended outcome => simp only [act, here]
    | begun => simp only [act, here]; exact asked_set here _
    | roomMade => simp only [act, here]; exact asked_set here _
    | drafted => simp only [act, here]; exact asked_set here _

theorem mem_asked_after {actions : List SaveAction} :
    y ∈ (after naming d actions).asked ↔ .ask y ∈ actions := by
  induction actions using List.reverseRecOn with
  | nil => simp [after, asked]
  | append_singleton actions a ih =>
    rw [after, List.foldl_append, ← after, List.foldl_cons, List.foldl_nil, List.mem_append, ← ih]
    cases a with
    | ask x => simp [act, asked]
    | goOn i => simp [asked_goOn]

/-- **What is loaded where the record of a save is**: its insights if it was for the path. -/
theorem load_of_record (fits : y.Fits) (directoryPath : String)
    (there : d.contentAt (recordName naming p) =
      .ok (some (FileTree.encode y.record.text))) :
    (d.load naming directoryPath p).1 = .ok (y.insightsFor? p) := by
  simp only [load, there, interpret, FileTree.decode_encode, Saving.ofText?_record fits,
    Saving.insightsFor?]
  by_cases own : y.path = p
  · simp [own]
  · simp [own]

/-- A save has ended just if it has made its three steps. -/
theorem Sound.ended_iff {s : Saves} (h : Sound naming s) {i : Nat} {phase : SavePhase}
    (here : s.saves[i]? = some (x, phase)) :
    (∃ outcome, phase = .ended outcome) ↔ (s.past.filter (·.index = i)).length = 3 := by
  rw [h.steps i x phase here]
  cases phase with
  | begun => simp [SavePhase.before]
  | roomMade => simp [SavePhase.before]
  | drafted => simp [SavePhase.before]
  | ended outcome => simp [SavePhase.before]

/-- **A save that shares its name with no other succeeds.** -/
theorem Sound.ok_of_alone {s : Saves} (h : Sound naming s) {i : Nat}
    {outcome : Except StoreFault Unit} (here : s.saves[i]? = some (x, .ended outcome))
    (alone : ∀ j y phase, s.saves[j]? = some (y, phase) → naming y.path = naming x.path → j = i) :
    outcome = .ok () := by
  obtain ⟨later, earlier, split, rfl⟩ := h.outcomes i x outcome here
  have own := h.steps i x _ here
  rw [split, List.filter_append, List.filter_cons_of_pos (by simp)] at own
  -- the save takes one draft only, so it had not taken one before, but it had written one
  have before : earlier.filter (·.index = i) = [⟨i, x, .roomMade⟩, ⟨i, x, .begun⟩] := by
    cases first : later.filter (·.index = i) with
    | nil => simpa [first, SavePhase.before] using own
    | cons m rest =>
      simp only [first, SavePhase.before, List.map_cons, List.map_nil, List.cons_append,
        List.cons.injEq, List.append_eq_cons_iff, reduceCtorEq, false_and, false_or,
        SaveMoment.mk.injEq, and_false] at own
      obtain ⟨-, rest, -, last⟩ := own
      cases rest <;> simp at last
  have notTaken : fate naming (naming x.path) earlier ≠ .taken := by
    intro taken
    obtain ⟨m, hm, same, drafted⟩ := exists_drafted_of_fate taken
    obtain ⟨phase, known⟩ := h.known m (by simp [split, hm])
    have mine : m ∈ earlier.filter (·.index = i) :=
      List.mem_filter.mpr ⟨hm, by simp [alone _ _ _ known same]⟩
    rw [before] at mine
    simp only [List.mem_cons, List.not_mem_nil, or_false] at mine
    rcases mine with rfl | rfl
    · cases drafted
    · cases drafted
  cases fate : fate naming (naming x.path) earlier with
  | untouched => exact absurd fate (fate_ne_untouched_of_steps before)
  | written => rfl
  | taken => exact absurd fate notTaken

/-- **Saves that overlap**, in a directory of files, however many and in whatever order they go on:
    each has ended when it has made three steps. One that has ended succeeded if the draft of its
    name was written and not yet taken when it took it, and found no draft otherwise; so it
    succeeded if no other save has its name. And from then on what is loaded for its path is what
    one of the saves with its name had to save, whole. -/
theorem overlapping_ended (regular : d.Regular) (actions : List SaveAction)
    (fits : ∀ y, .ask y ∈ actions → y.Fits) :
    let s := after naming d actions
    (∀ i x phase, s.saves[i]? = some (x, phase) →
      ((∃ outcome, phase = .ended outcome) ↔ (s.past.filter (·.index = i)).length = 3)) ∧
    ∀ i x outcome, s.saves[i]? = some (x, .ended outcome) →
      (∃ later earlier, s.past = later ++ ⟨i, x, .drafted⟩ :: earlier ∧
        outcome = if fate naming (naming x.path) earlier = .written then .ok ()
          else .error (.file .missing)) ∧
      ((∀ j y phase, s.saves[j]? = some (y, phase) → naming y.path = naming x.path → j = i) →
        outcome = .ok ()) ∧
      ∀ directoryPath, ∃ y, .ask y ∈ actions ∧ naming y.path = naming x.path ∧
        (s.directory.load naming directoryPath x.path).1 = .ok (y.insightsFor? x.path) := by
  have sound := sound_after regular naming actions
  refine ⟨fun i x phase here => sound.ended_iff here, fun i x outcome here =>
    ⟨sound.outcomes i x outcome here, sound.ok_of_alone here, fun directoryPath => ?_⟩⟩
  obtain ⟨later, earlier, split, -⟩ := sound.outcomes i x outcome here
  have took : (⟨i, x, .drafted⟩ : SaveMoment) ∈ (after naming d actions).past := by
    simp [split]
  obtain ⟨y, hy, same, there⟩ := sound.named x.path ⟨_, took, rfl, rfl⟩
  exact ⟨y, mem_asked_after.mp hy, same,
    load_of_record (fits y (mem_asked_after.mp hy)) directoryPath there⟩

/-- Two saves of one path: when the first has written its draft, the other is done in one go. -/
def overlap : List SaveAction :=
  [.ask nothingFound, .ask somethingFound, .goOn 0, .goOn 0, .goOn 1, .goOn 1, .goOn 1, .goOn 0]

/-- The draft of the first is gone when it is to be taken, for the other has taken it. -/
theorem saves_overlap (naming : String → String) :
    (after naming .missing overlap).saves =
      [(nothingFound, .ended (.error (.file .missing))), (somethingFound, .ended (.ok ()))] := by
  have empty : (present .empty).Regular := New.regular (.inr rfl)
  have room : saveStep naming nothingFound (.begun, .missing) = (.roomMade, present .empty) := rfl
  obtain ⟨e₁, draft, regular₁⟩ : ∃ e, saveStep naming nothingFound (.roomMade, present .empty) =
      (.drafted, present e) ∧ (present e).Regular :=
    ⟨_, saveStep_roomMade empty, empty.set _ _⟩
  have room' : saveStep naming somethingFound (.begun, present e₁) = (.roomMade, present e₁) := rfl
  obtain ⟨e₂, draft', regular₂, written⟩ : ∃ e,
      saveStep naming somethingFound (.roomMade, present e₁) = (.drafted, present e) ∧
        (present e).Regular ∧ e.get? (draftName naming "a.ts") =
          some (.file (FileTree.encode somethingFound.record.text)) :=
    ⟨_, saveStep_roomMade regular₁, regular₁.set _ _, Table.get?_set_self _ _ _⟩
  obtain ⟨e₃, take, gone⟩ : ∃ e, saveStep naming somethingFound (.drafted, present e₂) =
      (.ended (.ok ()), present e) ∧ e.get? (draftName naming "a.ts") = none := by
    refine ⟨_, saveStep_drafted regular₂ written, ?_⟩
    rw [Table.get?_set_ne _ _ (recordName_ne_draftName _ _).symm]
    exact Table.get?_erase_self _ _
  have miss : saveStep naming nothingFound (.drafted, present e₃) =
      (.ended (.error (.file .missing)), present e₃) := saveStep_undrafted gone
  simp [after, overlap, act, room, draft, room', draft', take, miss]

/-- Both have ended, and what is loaded for the path is what one of the two had to save. -/
theorem overlapping_ended_overlap :
    ∃ y, (y = nothingFound ∨ y = somethingFound) ∧
      ((after Digest.digest .missing overlap).directory.load Digest.digest "insights" "a.ts").1 =
        .ok (some y.insights) := by
  have mentioned : ∀ y, .ask y ∈ overlap → y = nothingFound ∨ y = somethingFound := by
    intro y hy
    simpa [overlap] using hy
  have fits : ∀ y, .ask y ∈ overlap → y.Fits := by
    intro y hy
    rcases mentioned y hy with rfl | rfl
    · exact List.forall_mem_nil _
    · exact somethingFound_fits
  have new : New .missing := .inl rfl
  have first : (after Digest.digest .missing overlap).saves[0]? =
      some (nothingFound, .ended (.error (.file .missing))) := by
    rw [saves_overlap]
    rfl
  obtain ⟨-, -, loads⟩ := (overlapping_ended new.regular overlap fits).2 0 _ _ first
  obtain ⟨y, hy, -, load⟩ := loads "insights"
  refine ⟨y, mentioned y hy, load.trans ?_⟩
  rcases mentioned y hy with rfl | rfl
  · rfl
  · rfl

/-- **Not every save succeeds**: of two saves of one path the first finds its draft taken. -/
theorem overlapping_taken :
    ¬ ∀ actions : List SaveAction, ∀ save ∈ (after Digest.digest .missing actions).saves,
      ∀ outcome, save.2 = .ended outcome → outcome = .ok () := by
  intro every
  have first := every overlap (nothingFound, .ended (.error (.file .missing)))
    (by simp [saves_overlap]) _ rfl
  cases first

end Ended

end Saves

end CodeInsight
