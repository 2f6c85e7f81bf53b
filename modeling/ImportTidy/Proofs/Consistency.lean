import ImportTidy.Proofs.Batches
import ImportTidy.Proofs.Readable

/-!
# Reports are consistent

A report has its data more than once.  The text of a file repeats its groups, the kind of
a group says whether it has a source, and the counts repeat all of it.  The three are
computed apart from each other, over the handles of a session.

*Groups.*  A session shows blocks whose names differ and can be read, so each group reports
a name, and its sorted names ascend strictly (`Group.Shows.report_consistent`).

*Counts.*  `Stats.counting` are the counts that a list of groups has.  Recording a group
keeps them so (`Stats.recordGroup_counting`), and so does all that a scan does to a report
(`Report.Counted`).
-/

namespace ImportTidy

/-! ## Consistent reports -/

/-- What the report of a group says more than once agrees. -/
structure GroupReport.Consistent (g : GroupReport) : Prop where
  /-- There are two kinds. -/
  kind : g.kind = "from" ∨ g.kind = "import"
  /-- The kind tells whether there is a source. -/
  source : g.kind = "from" ↔ g.source.isSome
  /-- A source has a category. -/
  category : g.source.isSome ↔ g.category.isSome
  /-- There is a name. -/
  ne_nil : g.names ≠ []
  /-- No name is empty. -/
  names : ∀ name ∈ g.names, name ≠ ""
  /-- The names ascend. -/
  ascending : g.names.Pairwise fun a b => NaturalOrder.cmp a b = .lt

/-- The report of a file agrees with itself. -/
structure FileReport.Consistent (rule : WrapRule) (file : FileReport) : Prop where
  /-- So do its groups. -/
  groups : ∀ g ∈ file.groups, g.Consistent
  /-- The text has the groups and nothing else. -/
  text : file.text =
    String.join (file.groups.map fun g =>
      Layout.render rule (Session.leadOf g.source) g.names ++ "\n")

/-- The report agrees with itself. -/
structure Report.Consistent (rule : WrapRule) (r : Report) : Prop where
  /-- The files are counted. -/
  files : r.stats.files = r.files.length
  /-- So are the files that failed. -/
  failures : r.stats.failures = r.failures.length
  /-- So are the groups. -/
  groups : r.stats.groups = (r.files.map fun file => file.groups.length).sum
  /-- A group has a source or is plain. -/
  kinds : r.stats.groups = r.stats.sourceGroups + r.stats.plainGroups
  /-- The names of all groups are counted. -/
  names : r.stats.names =
    (r.files.map fun file => (file.groups.map fun g => g.names.length).sum).sum
  /-- A group with a source has one of four categories. -/
  categories : r.stats.known + r.stats.relative + r.stats.standard + r.stats.unknown
    = r.stats.sourceGroups
  /-- Each file agrees with itself. -/
  each : ∀ file ∈ r.files, file.Consistent rule

/-! ## Groups of a session -/

theorem IsWord.ne_empty {w : String} (h : IsWord w) : w ≠ "" := by
  rintro rfl
  exact h.ne_nil rfl

theorem IsName.ne_empty {text : String} (h : IsName text) : text ≠ "" := by
  obtain ⟨e, proper, rfl⟩ := h
  unfold Entry.text
  cases e.asName with
  | none => exact proper.name.ne_empty
  | some a => simp [proper.name.ne_empty]

theorem Group.Shows.report_consistent {a : Arena} {g : Group} {b : Block} (h : g.Shows a b)
    (proper : b.Proper) (nodup : b.names.Nodup) (libraries : List String) :
    (g.report libraries a).Consistent := by
  have source : (g.report libraries a).source = b.origin.source? := h.source?_eq
  have names : (g.report libraries a).names = NaturalOrder.sort b.names := by
    rw [← h.texts_eq]
    rfl
  have kind : (g.report libraries a).kind =
      if b.origin.source?.isSome then "from" else "import" := by
    show (if g.isPlain then "import" else "from") = _
    cases origin : b.origin with
    | plain => rw [if_pos (h.isPlain_iff.mpr origin)]; rfl
    | source m =>
      have notPlain : ¬ g.isPlain = true := by simp [h.isPlain_iff, origin]
      rw [if_neg notPlain]
      rfl
  refine ⟨?_, ?_, ?_, ?_, ?_, ?_⟩
  · rw [kind]
    cases b.origin.source? with
    | none => exact .inr rfl
    | some m => exact .inl rfl
  · rw [kind, source]
    cases b.origin.source? with
    | none => simp
    | some m => simp
  · show (g.source? a).isSome = true ↔ ((g.source? a).map _).isSome = true
    rw [Option.isSome_map]
  · rw [names]
    exact proper.sorted_ne_nil
  · rw [names]
    intro name mem
    exact (proper.sorted name mem).ne_empty
  · rw [names]
    exact NaturalOrder.pairwise_lt_sort nodup

theorem Session.Shows.report_consistent {s : Session} {bs : List Block} (h : s.Shows bs)
    (proper : ∀ b ∈ bs, b.Proper) (nodup : ∀ b ∈ bs, b.names.Nodup) (settings : SortSettings)
    (path : Path) : (s.report settings path).Consistent settings.wrap := by
  constructor
  · intro g mem
    obtain ⟨own, hown, rfl⟩ := List.mem_map.mp mem
    obtain ⟨b, hb, shown⟩ := exists_partner h hown
    exact shown.report_consistent (proper b hb) (nodup b hb) _
  · show s.render settings.wrap = _
    rw [Session.render, Session.report, List.map_map]
    rfl

namespace Scanner

variable {t : FileTree} {s : Scanner} {path : Path} {file : FileReport}

theorem consistent_of_reportFeed {settings : SortSettings} {feed : Feed}
    (read : reportFeed settings path feed = .ok file) : file.Consistent settings.wrap := by
  obtain ⟨ended, rfl⟩ := reportFeed_eq_ok_iff.mp read
  obtain ⟨bs, shown, proper, distinct⟩ := Session.run_readable ended
  exact shown.report_consistent proper distinct.names settings path

theorem consistent_of_success? (success : s.success? t path = some file) :
    file.Consistent s.settings.sort.wrap := by
  obtain ⟨feed, read⟩ := exists_feed_of_reportFile (success?_eq_some_iff.mp success)
  exact consistent_of_reportFeed read

end Scanner

/-! ## Counts -/

/-- The counts that these groups have, under so many files and failures. -/
def Stats.counting (files failures : Nat) (gs : List GroupReport) : Stats where
  files := files
  failures := failures
  groups := gs.length
  sourceGroups := gs.countP fun g => g.source.isSome
  plainGroups := gs.countP fun g => g.source = none
  names := (gs.map fun g => g.names.length).sum
  known := gs.countP fun g => g.category = some .known
  relative := gs.countP fun g => g.category = some .relative
  standard := gs.countP fun g => g.category = some .standard
  unknown := gs.countP fun g => g.category = some .unknown

namespace Stats

variable {files failures : Nat} {gs : List GroupReport}

theorem recordGroup_counting (g : GroupReport) :
    (counting files failures gs).recordGroup g = counting files failures (gs ++ [g]) := by
  unfold recordGroup counting
  cases source : g.source <;> cases category : g.category with
  | none => simp [recordCategory, source, category]
  | some c => cases c <;> simp [recordCategory, source, category]

theorem foldl_recordGroup_counting (more : List GroupReport) :
    more.foldl recordGroup (counting files failures gs) =
      counting files failures (gs ++ more) := by
  induction more generalizing gs with
  | nil => rw [List.foldl_nil, List.append_nil]
  | cons g more ih => rw [List.foldl_cons, recordGroup_counting, ih, List.append_assoc]; rfl

theorem record_counting (file : FileReport) :
    (counting files failures gs).record file =
      counting (files + 1) failures (gs ++ file.groups) :=
  foldl_recordGroup_counting file.groups

/-- A group has a source or is plain. -/
theorem groups_counting (files failures : Nat) (gs : List GroupReport) :
    (counting files failures gs).groups =
      (counting files failures gs).sourceGroups + (counting files failures gs).plainGroups := by
  show gs.length = gs.countP _ + gs.countP _
  rw [List.length_eq_countP_add_countP fun g : GroupReport => g.source.isSome]
  simp

/-- Where sources and only sources have a category, each source counts for one of the four. -/
theorem categories_counting (files failures : Nat)
    (consistent : ∀ g ∈ gs, g.source.isSome ↔ g.category.isSome) :
    (counting files failures gs).known + (counting files failures gs).relative
        + (counting files failures gs).standard + (counting files failures gs).unknown =
      (counting files failures gs).sourceGroups := by
  induction gs with
  | nil => rfl
  | cons g gs ih =>
    obtain ⟨own, others⟩ := List.forall_mem_cons.mp consistent
    have rest := ih others
    simp only [counting, List.countP_cons] at rest ⊢
    cases category : g.category with
    | none =>
      have none : g.source.isSome = false := by simpa [category] using own
      simpa [none] using rest
    | some c =>
      have some : g.source.isSome = true := by simpa [category] using own
      cases c <;> simp [some] <;> omega

end Stats

/-- The counts of the report are those of its lists. -/
def Report.Counted (r : Report) : Prop :=
  r.stats = .counting r.files.length r.failures.length (r.files.flatMap FileReport.groups)

theorem Report.Counted.consistent {r : Report} {rule : WrapRule} (h : r.Counted)
    (each : ∀ file ∈ r.files, file.Consistent rule) : r.Consistent rule := by
  have categories : ∀ g ∈ r.files.flatMap FileReport.groups,
      g.source.isSome ↔ g.category.isSome := by
    intro g mem
    obtain ⟨file, hfile, hg⟩ := List.mem_flatMap.mp mem
    exact ((each file hfile).groups g hg).category
  unfold Report.Counted at h
  refine ⟨?_, ?_, ?_, ?_, ?_, ?_, each⟩
  · rw [h]
    rfl
  · rw [h]
    rfl
  · rw [h]
    exact List.length_flatMap
  · rw [h]
    exact Stats.groups_counting ..
  · rw [h]
    show ((r.files.flatMap FileReport.groups).map _).sum = _
    rw [List.map_flatMap, List.flatMap_def, List.sum_flatten, List.map_map]
    rfl
  · rw [h]
    exact Stats.categories_counting _ _ categories

namespace Scanner

variable {t : FileTree} {s : Scanner} {r : Report}

theorem counted_emptyReport (m : Metadata) : (emptyReport m).Counted := rfl

theorem counted_addFile (h : r.Counted) (file : FileReport) : (addFile r file).Counted := by
  unfold Report.Counted addFile
  dsimp only
  rw [h, Stats.record_counting]
  simp

theorem counted_addFailure (h : r.Counted) (path : Path) (fault : ScanFault) :
    (addFailure r path fault).Counted := by
  unfold Report.Counted addFailure
  dsimp only
  rw [h]
  simp [Stats.recordFailure, Stats.counting]

theorem counted_record (h : r.Counted) (path : Path) : (s.record t r path).Counted := by
  unfold record
  cases s.reportFile t path with
  | ok file => exact counted_addFile h file
  | error fault => exact counted_addFailure h path fault

theorem counted_foldl_record (h : r.Counted) (paths : List Path) :
    (paths.foldl (s.record t) r).Counted := by
  induction paths generalizing r with
  | nil => exact h
  | cons path paths ih => exact ih (counted_record h path)

theorem consistent_of_scan {m : Metadata} (done : s.scan t m = .ok r) :
    r.Consistent s.settings.sort.wrap := by
  have counted : r.Counted := by
    rw [scanFrom_eq_ok done]
    exact counted_foldl_record (counted_emptyReport m) _
  refine counted.consistent ?_
  intro file mem
  rw [files_of_scan done] at mem
  obtain ⟨path, -, success⟩ := List.mem_filterMap.mp mem
  exact consistent_of_success? success

theorem consistent_of_scanInput {m : Metadata} {context : String} {input : List UInt8}
    (done : s.scanInput m context input = .ok r) : r.Consistent s.settings.sort.wrap := by
  unfold scanInput at done
  dsimp only at done
  generalize reading : reportFeed s.settings.sort context _ = found at done
  cases found with
  | error fault => cases done
  | ok file =>
    cases done
    refine (counted_addFile (counted_emptyReport m) file).consistent ?_
    intro other mem
    obtain rfl := List.mem_singleton.mp mem
    exact consistent_of_reportFeed reading

/-- Every report is consistent, whether of files or of an input. -/
theorem reports_consistent {m : Metadata}
    (done : s.scan t m = .ok r ∨ ∃ context input, s.scanInput m context input = .ok r) :
    r.Consistent s.settings.sort.wrap := by
  rcases done with scanned | ⟨context, input, read⟩
  · exact consistent_of_scan scanned
  · exact consistent_of_scanInput read

theorem reports_consistent_of_one_failure :
    ∃ r, scan ⟨.directory [("a", .file (Utf8.encode "from m import b, c\n"))], []⟩
        ⟨{ roots := ["a", "d"], keepGoing := true }, ⟨none, [], [], []⟩⟩
        { timestamp := "" } = .ok r ∧
      r.files.length = 1 ∧ r.failures.length = 1 ∧ r.stats.groups = 1 ∧ r.Consistent {} := by
  have done : scan ⟨.directory [("a", .file (Utf8.encode "from m import b, c\n"))], []⟩
      ⟨{ roots := ["a", "d"], keepGoing := true }, ⟨none, [], [], []⟩⟩
      { timestamp := "" } = .ok _ := scanFrom_of_goesOn rfl _ _
  exact ⟨_, done, by decide +kernel, by decide +kernel, by decide +kernel,
    reports_consistent (.inl done)⟩

end Scanner

end ImportTidy
