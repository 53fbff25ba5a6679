import CodeInsight.Proofs.Command.Printing
import CodeInsight.Proofs.Engine.Saving

/-!
# What was printed can be read back

* the engine takes its steps between those of printing (`engineIn`): what a step of the
  engine and a line that is logged keep, a run of printing keeps (`PrintRun.keeps`);
* no file is told of as complete twice (`Engine.Books.completed_nodup`), so at most one save is
  tried for it;
* a command that runs later in the same data directory, into which nobody else has written since
  (`Workplace.Later`), finds the directories there and loads what is in the records
  (`Workplace.Later.insights_eq`);
* so **what was printed when files were analysed can be read back** as soon as the engine was shut
  down, if it could be saved (`PrintRun.reads_back`): shutting down waits for the save that comes
  after the last event.
-/

namespace CodeInsight

open FileTree (Keeps)

/-- The step of the engine, if it is its turn. -/
def PrintMoment.moment? (m : PrintMoment) : Option Moment :=
  match m.step with
  | .engine a => some ⟨m.printing.time.engine, a⟩
  | _ => none

/-- The steps that the engine has taken, the latest first. -/
def engineIn (past : List PrintMoment) : List Moment := past.filterMap PrintMoment.moment?

/-! ## 1. Runs -/

namespace Printing

open Engine

variable {p₀ p : Printing} {past : List PrintMoment}

/-- **What a step of the engine and a logged line keep**, a run of printing keeps. -/
theorem PrintRun.keeps {P : List Moment → Engine → Prop} (ok : Action → Prop)
    (run : PrintRun p₀ past p) (start : P [] p₀.time.engine)
    (step : ∀ {moments e e' a}, P moments e → e.step? a = some e' → ok a →
      P (⟨e, a⟩ :: moments) e')
    (log : ∀ {moments e}, P moments e → ∀ lines, P moments (e.log lines))
    (all : ∀ m ∈ engineIn past, ok m.action) : P (engineIn past) p.time.engine := by
  induction run with
  | start => exact start
  | @step past p p' s run hs ih =>
    cases turn_of_step hs with
    | @engine a e went =>
      have all : ∀ m ∈ ⟨p.time.engine, a⟩ :: engineIn past, ok m.action := all
      obtain ⟨now, before⟩ := List.forall_mem_cons.mp all
      exact step (ih before) went now
    | event | busy => exact ih all
    | lagged => exact log (ih all) _
    | quiet =>
      show P (engineIn past) (p.drain p.waiting).time.engine
      rw [time_drain]
      exact ih all

theorem isOrderly_of_mem (orderly : ∀ m ∈ past, m.isOrderly = true) :
    ∀ m ∈ engineIn past, m.action.isOrderly = true := by
  intro m hm
  obtain ⟨pm, hpm, step⟩ := List.mem_filterMap.mp hm
  have fine := orderly pm hpm
  unfold PrintMoment.moment? at step
  split at step
  · rename_i a ha
    cases step
    simpa [PrintMoment.isOrderly, ha] using fine
  · cases step

end Printing

/-! ## 2. One save for each file -/

section Once

variable {past : List Moment} {path : String} {insights : List Insight}

/-- What is told of as complete is told of to the end. -/
theorem completedIn_sublist (events : List Event) :
    ((completedIn events).map (·.1)).Sublist (endedFiles events) := by
  induction events with
  | nil => exact .slnil
  | cons event events ih =>
    unfold completedIn endedFiles at ih ⊢
    cases event with
    | completed => exact ih.cons_cons _
    | failed => exact ih.cons _
    | detected => exact ih

/-- What was saved it was tried to save. -/
theorem tried?_of_saving? {m : Moment} {x : Saving} (saved : m.saving? = some x) :
    m.tried? = some (x.path, x.insights) := by
  obtain ⟨w, done, rfl⟩ := Option.map_eq_some_iff.mp saved
  unfold Moment.saved? at done
  split at done
  · rename_i i ha
    split at done
    · rename_i b insights' at'
      split at done
      · cases done
        simp [Moment.tried?, ha, at', Phase.saving?]
      · cases done
    · cases done
  · cases done

theorem savedIn_sublist (past : List Moment) :
    ((savedIn past).map fun x => (x.path, x.insights)).Sublist (triedIn past) := by
  induction past with
  | nil => exact .slnil
  | cons m past ih =>
    unfold savedIn triedIn at ih ⊢
    cases saved : m.saving? with
    | some x =>
      rw [List.filterMap_cons_some saved, List.filterMap_cons_some (tried?_of_saving? saved)]
      exact ih.cons_cons _
    | none =>
      rw [List.filterMap_cons_none saved]
      cases tried : m.tried? with
      | some w =>
        rw [List.filterMap_cons_some tried]
        exact ih.cons w
      | none =>
        rw [List.filterMap_cons_none tried]
        exact ih

/-- Where one save at most was tried for each file, later saves were for other files. -/
theorem savedIn_apart (distinct : ((triedIn past).map (·.1)).Nodup) {later earlier : List Saving}
    {x : Saving} (split : savedIn past = later ++ x :: earlier) {y : Saving} (hy : y ∈ later) :
    (y.path, y.insights) ∈ triedIn past ∧ y.path ≠ x.path := by
  have sublist := savedIn_sublist past
  rw [split] at sublist
  refine ⟨sublist.subset (List.mem_map_of_mem (List.mem_append_left _ hy)), ?_⟩
  have once := distinct.sublist (sublist.map (·.1))
  rw [List.map_map, List.map_append, List.map_cons] at once
  exact (List.nodup_append.mp once).2.2 y.path (List.mem_map_of_mem hy) x.path List.mem_cons_self

/-- What is in a list under a name of its own is all that is under the name. -/
theorem filter_of_nodup {l : List (String × List Insight)} (distinct : (l.map (·.1)).Nodup)
    (there : (path, insights) ∈ l) : l.filter (·.1 == path) = [(path, insights)] := by
  induction l with
  | nil => cases there
  | cons w l ih =>
    obtain ⟨first, distinct⟩ := List.nodup_cons.mp distinct
    rcases List.mem_cons.mp there with rfl | there
    · have others : l.filter (·.1 == path) = [] := List.filter_eq_nil_iff.mpr fun w hw same =>
        first (List.mem_map.mpr ⟨w, hw, beq_iff_eq.mp same⟩)
      rw [List.filter_cons_of_pos (by simp), others]
    · have other : ¬ (w.1 == path) = true := fun same =>
        first (List.mem_map.mpr ⟨_, there, (beq_iff_eq.mp same).symm⟩)
      rw [List.filter_cons, if_neg other, ih distinct there]

end Once

namespace Engine

variable {files : List String} {past : List Moment} {e : Engine}

/-- **No file is told of as complete twice.** -/
theorem Books.completed_nodup (h : Books files e) (distinct : files.Nodup) :
    ((completedIn e.events).map (·.1)).Nodup ∧ ∀ w ∈ completedIn e.events, w.1 ∈ files := by
  have once := (h.places.nodup_iff.mpr distinct)
  have apart : (endedFiles e.events).Nodup := (List.nodup_append.mp once).2.1
  refine ⟨apart.sublist (completedIn_sublist _), fun w hw => h.places.mem_iff.mp ?_⟩
  exact List.mem_append_right _ ((completedIn_sublist _).subset (List.mem_map_of_mem hw))

/-- What is known of saves at the end of an analysis. -/
structure TriedOnce (files : List String) (past : List Moment) (e : Engine) : Prop where
  all : ∀ w ∈ completedIn e.events, w ∈ triedIn past
  distinct : ((triedIn past).map (·.1)).Nodup
  known : ∀ w ∈ triedIn past, w.1 ∈ files

/-- **When the engine was shut down**, one save was tried for each file that was told of as
    complete. -/
theorem Filing.triedOnce {naming : String → String} {directory : String}
    {entries : Table RecordEntry} (h : Filing naming directory entries past e)
    (books : Books files e) (distinct : files.Nodup) (returned : e.shutdowns = [.returned]) :
    TriedOnce files past e := by
  have all := h.saves.all_tried (hasEnded_of_returned h.forgotten h.taken returned)
  obtain ⟨apart, known⟩ := books.completed_nodup distinct
  rw [all] at apart known
  refine ⟨fun w hw => ?_, ?_, fun w hw => known w (List.mem_reverse.mpr hw)⟩
  · rw [all] at hw
    exact List.mem_reverse.mp hw
  · rwa [List.map_reverse, List.nodup_reverse] at apart

/-- The account of an analysis begins when the engine was started. -/
theorem JustStarted.filing {naming : String → String} {directory : String}
    {entries : Table RecordEntry} (h : JustStarted (.records naming directory (.present entries)) e)
    (started : Started files e) : Filing naming directory entries [] e := by
  have queueing {i : Nat} {q : Phase} (hq : e.At i q) : q = .queueing := by
    rw [At, h.phases] at hq
    exact List.mem_singleton.mp (List.mem_of_getElem? hq)
  refine ⟨⟨started.books.one, ⟨fun i b hb => ?_, fun i q hq => ?_⟩, ?_⟩,
    ⟨_, h.store, .start⟩, h.forgotten, ?_⟩
  · obtain ⟨q, hq, busy⟩ := at_of_hand? hb
    rw [queueing hq] at busy
    cases busy
  · rw [queueing hq]
    rfl
  · rw [started.events, h.phases]
    rfl
  · rw [TakenUp, h.shutdowns]
    exact List.forall_mem_nil _

end Engine

/-! ## 3. Later commands -/

namespace Workplace

variable {s s' : Workplace} {given : Option String} {d d' : DataDirectory} {tree : FileTree}

theorem makeDataDirectory_ok (made : s.makeDataDirectory given = (.ok d, tree)) :
    s.dataDirectory given = .ok d ∧ d.make s.here s.tree = (.ok (), tree) := by
  unfold makeDataDirectory at made
  split at made
  · cases made
  · rename_i d' named
    cases done : d'.make s.here s.tree with
    | mk outcome tree' =>
      rw [done] at made
      cases outcome with
      | ok =>
        cases made
        exact ⟨named, done⟩
      | error => cases made

/-- Where a command runs later, with a data directory that holds the same records as another held
    in a tree: nobody else has written into it. -/
structure Later (s : Workplace) (d : DataDirectory) (tree : FileTree) (s' : Workplace)
    (given : Option String) (d' : DataDirectory) : Prop where
  named : s'.dataDirectory given = .ok d'
  there : d'.IsThere s'.here s'.tree
  records : s'.tree.recordsAt s'.here d'.insights = tree.recordsAt s.here d.insights

/-- The data directory is not changed by a later command that makes it. -/
theorem Later.makeDataDirectory (h : Later s d tree s' given d') :
    s'.makeDataDirectory given = (.ok d', s'.tree) := by
  unfold Workplace.makeDataDirectory
  rw [h.named]
  dsimp only
  rw [DataDirectory.make_of_isThere h.there]
  rfl

/-- **`insights` prints what the record has**, for every path that leads to the file. -/
theorem Later.insights_eq (h : Later s d tree s' given d') {path P : String}
    {insights : List Insight} {time : Instant} (fits : ∀ i ∈ insights, i.Fits)
    (record : (tree.recordsAt s.here d.insights).contentAt
      (RecordDirectory.recordName Digest.digest path) =
        .ok (some (FileTree.encode (Record.text ⟨path, time, insights⟩))))
    (leads : s'.tree.canonical s'.here P = .ok path) :
    s'.insights P given =
      { tree := s'.tree, lines := [(Insight.listToJson insights).toPrettyText] } := by
  have loaded : (s'.storeAt s'.tree d').load path = (.ok (some insights), []) := by
    rw [storeAt, h.records]
    exact RecordDirectory.load_of_contentAt fits record
  unfold Workplace.insights
  rw [leads]
  dsimp only
  rw [h.makeDataDirectory]
  dsimp only
  rw [loaded]
  rfl

/-- **What can be read back of a file** from a data directory held in a tree: its record is whole,
    and whoever asks later for the insights of the file, by whatever path that leads to it, gets
    exactly those. -/
structure ReadsBack (s : Workplace) (d : DataDirectory) (tree : FileTree) (path : String)
    (insights : List Insight) : Prop where
  record : ∃ time, (tree.recordsAt s.here d.insights).contentAt
    (RecordDirectory.recordName Digest.digest path) =
      .ok (some (FileTree.encode (Record.text ⟨path, time, insights⟩)))
  printed : (∀ i ∈ insights, i.Fits) → ∀ s' given d' P, Later s d tree s' given d' →
    s'.tree.canonical s'.here P = .ok path →
      s'.insights P given =
        { tree := s'.tree, lines := [(Insight.listToJson insights).toPrettyText] }

end Workplace

/-! ## 4. After the analysis -/

/-- **Records that were saved are put where they are found**, and the directories stay there. -/
theorem DataDirectory.InOrder.put {d : DataDirectory} {here : Place} {tree : FileTree}
    {directory : RecordDirectory} {entries : Table RecordEntry} (order : d.InOrder here tree)
    (there : d.IsThere here tree) (before : tree.recordsAt here d.insights = .present entries)
    (kept : RecordDirectory.KeepsDirectories entries directory) :
    d.IsThere here (tree.putRecords here d.insights directory) ∧
      ∀ name content, directory.contentAt name = .ok (some content) →
        ((tree.putRecords here d.insights directory).recordsAt here d.insights).contentAt name =
          .ok (some content) := by
  obtain ⟨place, found⟩ := there.insights
  obtain ⟨entries₀, read, -, same⟩ := FileTree.get?_of_recordsAt found
  obtain rfl : entries₀ = entries := by
    rw [before] at read
    cases read
    rfl
  obtain ⟨entries', rfl, distinct, stays⟩ := kept
  have keeps : Keeps FileNode.isWay tree
      (tree.putRecords here d.insights (.present entries')) := by
    rw [FileTree.putRecords_of_find found]
    refine FileTree.keeps_putEntries (order.records place found) distinct
      fun name entry directory got => ?_
    have was : entries₀.get? name = some .directory := by
      rw [same, directory]
      rfl
    exact Option.some.inj (got.symm.trans (stays name was))
  refine ⟨there.keeps keeps, fun name content saved => ?_⟩
  refine FileTree.contentAt_putRecords found (keeps.find (fun _ way => way) rfl found) ?_ saved
  rintro _ ⟨⟩
  exact distinct

namespace Printing

open Engine

variable {s : Workplace} {given : Option String} {d : DataDirectory} {tree : FileTree}
variable {settings : Settings} {files : List String} {priority : Priority} {p₀ p : Printing}
variable {past : List PrintMoment}

/-- **The account of an analysis is kept** in every run. -/
theorem PrintRun.filing {directory : String} {entries : Table RecordEntry}
    (begun : s.begin? settings (.records Digest.digest directory (.present entries)) files
      priority = some p₀)
    (run : PrintRun p₀ past p) (distinct : files.Nodup)
    (orderly : ∀ m ∈ past, m.isOrderly = true)
    (once : ∀ m ∈ engineIn past, m.action.isStart = false) :
    Filing Digest.digest directory entries (engineIn past) p.time.engine := by
  obtain ⟨e, built, rfl⟩ := Option.map_eq_some_iff.mp begun
  have started := Workplace.started_engineFor built distinct
  have just := Workplace.justStarted_engineFor built
  exact run.keeps (fun a => a.isOrderly = true ∧ a.isStart = false) (just.filing started)
    (fun h hs fine => h.step hs fine.1 fine.2) (fun h lines => h.log lines)
    fun m hm => ⟨isOrderly_of_mem orderly m hm, once m hm⟩

/-- **What `analyze` printed can be read back.** In whatever order the engine takes its steps,
    events are received and the status is looked at, when the one call that shuts the engine down
    has returned the data directory is as it should be for a later command, and for each analysis
    that was printed as complete

    * it was tried to save the printed insights, and no others for that file;
    * if they could be saved, and no other file has the same digest, the record of the file is whole
      and has exactly the printed insights, and whoever asks for them later, by whatever path that
      leads to the file, gets exactly those. -/
theorem PrintRun.reads_back (distinct : files.Nodup)
    (made : s.makeDataDirectory given = (.ok d, tree)) (order : d.InOrder s.here tree)
    (begun : s.begin? settings (s.storeAt tree d) files priority = some p₀)
    (run : PrintRun p₀ past p)
    (orderly : ∀ m ∈ past, m.isOrderly = true)
    (once : ∀ m ∈ engineIn past, m.action.isStart = false)
    (returned : p.time.engine.shutdowns = [.returned]) :
    Workplace.Later s d (s.putStore tree p.time.engine.store)
        { s with tree := s.putStore tree p.time.engine.store } given d ∧
      ∀ path insights time, .completed path insights time ∈ p.printed →
        (triedIn (engineIn past)).filter (·.1 == path) = [(path, insights)] ∧
        ∀ m ∈ engineIn past, m.saved? = some (path, insights) →
          (∀ other ∈ files, Digest.digest other = Digest.digest path → other = path) →
            Workplace.ReadsBack s d (s.putStore tree p.time.engine.store) path insights := by
  obtain ⟨named, made⟩ := Workplace.makeDataDirectory_ok made
  have there := DataDirectory.isThere_of_make made order
  obtain ⟨place, found⟩ := there.insights
  obtain ⟨entries, before, single, -⟩ := FileTree.get?_of_recordsAt found
  rw [Workplace.storeAt, before] at begun
  have filing := run.filing begun distinct orderly once
  obtain ⟨e, built, rfl⟩ := Option.map_eq_some_iff.mp begun
  have ledger := run.ledger (Workplace.started_engineFor built distinct) distinct orderly
  obtain ⟨directory, store, stocked⟩ := filing.stocked
  obtain ⟨there', placed⟩ := order.put there before (stocked.keepsDirectories single)
  have put : s.putStore tree p.time.engine.store =
      tree.putRecords s.here d.insights directory := by
    rw [store]
    rfl
  rw [put]
  refine ⟨⟨named, there', rfl⟩, fun path insights time printed => ?_⟩
  -- what was printed was told of, and so it was tried to save it
  have told : .completed path insights time ∈ p.time.engine.events :=
    List.mem_of_mem_take (ledger.order.subset (List.mem_reverse.mpr printed))
  have tried := filing.triedOnce ledger.books distinct returned
  refine ⟨filter_of_nodup tried.distinct (tried.all _ (List.mem_filterMap.mpr ⟨_, told, rfl⟩)),
    fun m hm saved alone => ?_⟩
  -- no save that came later was for the same record
  have saving : m.saving? = some ⟨path, insights, m.engine.now⟩ := by
    rw [Moment.saving?, saved]
    rfl
  have mem : ⟨path, insights, m.engine.now⟩ ∈ savedIn (engineIn past) :=
    List.mem_filterMap.mpr ⟨m, hm, saving⟩
  obtain ⟨later, earlier, split⟩ := List.append_of_mem mem
  have others (y : Saving) (hy : y ∈ later) : Digest.digest path ≠ Digest.digest y.path := by
    intro same
    obtain ⟨known, other⟩ := savedIn_apart tried.distinct split hy
    exact other (alone y.path (tried.known _ known) same.symm)
  have record := placed _ _ (stocked.contentAt split others)
  exact ⟨⟨_, record⟩, fun fits s' given' d' P later leads => later.insights_eq fits record leads⟩

/-! ## 5. A data directory that is new -/

/-- A place with one file. -/
def oneFile : Workplace := { tree := ⟨[(["a.ts"], .file (FileTree.encode manyParameters))]⟩ }

/-- The tree with a data directory besides the file. -/
def withDataDirectory : FileTree := (oneFile.makeDataDirectory (some "/d")).2

theorem makeDataDirectory_oneFile :
    oneFile.makeDataDirectory (some "/d") = (.ok ⟨"/d"⟩, withDataDirectory) := by
  have named : (oneFile.makeDataDirectory (some "/d")).1.toOption = some ⟨"/d"⟩ := by
    decide +kernel
  refine Prod.ext ?_ rfl
  cases made : (oneFile.makeDataDirectory (some "/d")).1 with
  | ok d =>
    rw [made] at named
    cases named
    rfl
  | error =>
    rw [made] at named
    cases named

theorem inOrder_withDataDirectory :
    DataDirectory.InOrder ⟨"/d"⟩ oneFile.here withDataDirectory where
  directories := by decide +kernel
  records place _ name target there := by
    have found : withDataDirectory.nodes.lookup (place ++ [name]) = some (.link target) := by
      simpa [FileTree.get?] using there
    obtain ⟨l₁, l₂, split, -⟩ := List.lookup_eq_some_iff.mp found
    have listed : (place ++ [name], FileNode.link target) ∈ withDataDirectory.nodes := by
      rw [split]
      exact List.mem_append_right _ List.mem_cons_self
    have plain : ∀ e ∈ withDataDirectory.nodes, ∀ target, e.2 ≠ .link target := by
      have nodes : withDataDirectory.nodes =
          [(["d", "logs"], .directory), (["d", "insights"], .directory), (["d"], .directory),
            (["a.ts"], .file (FileTree.encode manyParameters))] := by decide +kernel
      simp [nodes]
    exact plain _ listed target rfl

/-- The analysis of the file with the insights kept in the data directory, before anything has
    happened. -/
def keptAnalysis : Option Printing :=
  oneFile.begin? {} (oneFile.storeAt withDataDirectory ⟨"/d"⟩) ["/a.ts"] .medium

/-- The analysis: printing has ended and the engine is being shut down when the insights are
    saved. -/
def keptAnalysisSteps : List PrintStep :=
  [.engine (.worker 0 .enterSlot), .engine (.worker 0 .look), .engine (.worker 0 .take),
    .engine (.worker 0 (.endReading (.content manyParameters))),
    .engine (.endJob 0 (.outline
      ⟨"/a.ts", none, [⟨.function, "f", 1, 0, some manyParameters, false⟩], []⟩)),
    .engine (.worker 0 .cache), .engine (.worker 0 (.advise none)), .engine (.worker 0 .close),
    .receive, .engine .shutdownBegins, .engine (.shutdownGoesOn 0), .engine (.shutdownGoesOn 0),
    .engine (.worker 0 (.save .tried)), .engine (.worker 0 .finish),
    .engine (.worker 0 .heedStop), .engine (.worker 0 .leave), .engine (.shutdownGoesOn 0)]

/-- Whether insights were printed for a file and saved, and can be told from their encoding. -/
def savedPrinted (path : String) (past : List PrintMoment) (event : Event) : Bool :=
  match event with
  | .completed path' insights _ =>
    path' == path && !insights.isEmpty &&
      (engineIn past).any (fun m => m.saved? == some (path', insights)) &&
      insights.all fun i => decide i.Fits
  | _ => false

/-- What was saved after the printing had ended is printed again when it is asked for by another
    path that leads to the file. -/
theorem reads_back_keptAnalysis :
    ∃ p₀ past p insights time, keptAnalysis = some p₀ ∧ PrintRun p₀ past p ∧ insights ≠ [] ∧
      .completed "/a.ts" insights time ∈ p.printed ∧
      let after := oneFile.putStore withDataDirectory p.time.engine.store
      Workplace.ReadsBack oneFile ⟨"/d"⟩ after "/a.ts" insights ∧
        ({ oneFile with tree := after }.insights "/d/../a.ts" (some "/d")).lines =
          [(Insight.listToJson insights).toPrettyText] := by
  obtain ⟨⟨past, p⟩, traced, seen⟩ := Option.map_eq_some_iff.mp (show
    (keptAnalysis.bind fun p₀ => trace? keptAnalysisSteps ([], p₀)).map (fun r =>
      (r.1.all (·.isOrderly), (engineIn r.1).all (!·.action.isStart), r.2.time.engine.shutdowns,
        r.2.printed.any (savedPrinted "/a.ts" r.1),
        ((oneFile.putStore withDataDirectory r.2.time.engine.store).canonical []
          "/d/../a.ts").toOption)) = some (true, true, [.returned], true, some "/a.ts")
      by decide +kernel)
  obtain ⟨p₀, begun, ht⟩ := Option.bind_eq_some_iff.mp traced
  simp only [Prod.mk.injEq, List.all_eq_true, List.any_eq_true, Bool.not_eq_true'] at seen
  obtain ⟨orderly, once, returned, ⟨event, printed, saved⟩, leads⟩ := seen
  have run := PrintRun.start.of_trace? ht
  cases event with
  | completed path insights time =>
    simp only [savedPrinted, Bool.and_eq_true, Bool.not_eq_true', beq_iff_eq,
      List.any_eq_true, List.all_eq_true, decide_eq_true_eq] at saved
    obtain ⟨⟨⟨rfl, found⟩, m, hm, saved⟩, fits⟩ := saved
    obtain ⟨after, readable⟩ := PrintRun.reads_back (by decide) makeDataDirectory_oneFile
      inOrder_withDataDirectory begun run orderly once returned
    obtain ⟨-, readBack⟩ := readable _ insights time printed
    have back := readBack m hm saved fun other ho _ => List.mem_singleton.mp ho
    refine ⟨p₀, past, p, insights, time, begun, run, ?_, printed, back, ?_⟩
    · rintro rfl
      cases found
    · rw [back.printed fits _ _ _ "/d/../a.ts" after ?_]
      cases canonical : (oneFile.putStore withDataDirectory p.time.engine.store).canonical []
          "/d/../a.ts" with
      | ok path =>
        rw [canonical] at leads
        cases leads
        exact canonical
      | error =>
        rw [canonical] at leads
        cases leads
  | failed => cases saved
  | detected => cases saved

end Printing

end CodeInsight
