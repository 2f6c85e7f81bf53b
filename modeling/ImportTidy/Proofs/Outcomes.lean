import ImportTidy.Command
import ImportTidy.Proofs.Batches

/-!
# Outcomes of the command

A run puts out its report or nothing.

*Completing.*  A run that reads its configuration and its input, or all its files, has a report
of them (`Command.Completes`).

*Stopping.*  `Command.Fails` lists what ends a run before it has a report: its configuration,
an input that cannot be read, or a file that cannot be read where the run does not go on.  A
report with a path that is no text has no JSON and no YAML (`Report.format_eq_error_iff`), and
that stops a run as well (`Command.Stops`).  Such a run says what is wrong and leaves everything
as it was (`Command.run_of_stops`).

*Delivering.*  Otherwise the run puts the text of its report out in one piece, to the file that
the arguments name or else to the output, and its status tells whether a file failed
(`Command.Delivers`).

Nothing else is left but runs that panic (`Command.report_cases`), and they are those of a build
whose reads panic.
-/

namespace ImportTidy

theorem Scanner.ofSettings_eq_ok {t : FileTree} {s : Scanner}
    (valid : s.settings.sort.fault? = none)
    (filter : FileFilter.ofSettings t s.settings = .ok s.filter) :
    Scanner.ofSettings t s.settings = .ok s := by
  simp only [Scanner.ofSettings, valid, filter]

/-! ## Reports without a form -/

/-- Items have no values just where one of them has none. -/
theorem mapM_eq_none_iff {α β : Type} {f : α → Option β} {xs : List α} :
    xs.mapM f = none ↔ ∃ x ∈ xs, f x = none := by
  induction xs with
  | nil => simp
  | cons x xs ih =>
    simp only [List.mapM_cons, List.mem_cons, exists_eq_or_imp, ← ih]
    cases f x with
    | none => simp
    | some y => cases xs.mapM f <;> simp

namespace Report

/-- Some path of the report is no text. -/
def HasRawPath (r : Report) : Prop :=
  (∃ f ∈ r.files, f.path.text? = none) ∨ ∃ f ∈ r.failures, f.path.text? = none

theorem members?_eq_none_iff {r : Report} : r.members? = none ↔ r.HasRawPath := by
  have files : r.files.mapM FileReport.toJson? = none ↔ ∃ f ∈ r.files, f.path.text? = none := by
    simp [mapM_eq_none_iff, FileReport.toJson?]
  have failures : r.failures.mapM FileFailure.toJson? = none ↔
      ∃ f ∈ r.failures, f.path.text? = none := by
    simp [mapM_eq_none_iff, FileFailure.toJson?]
  rw [HasRawPath, ← files, ← failures, members?]
  cases r.files.mapM FileReport.toJson? with
  | none => simp
  | some files => cases r.failures.mapM FileFailure.toJson? <;> simp

/-- The report has no form in the format, since that has texts for paths. -/
inductive Unformatted (r : Report) : OutputFormat → FormatFault → Prop where
  /-- There is no JSON. -/
  | json : r.HasRawPath → Unformatted r .json .json
  /-- There is no YAML. -/
  | yaml : r.HasRawPath → Unformatted r .yaml .yaml

theorem format_eq_error_iff {r : Report} {form : OutputFormat} {fault : FormatFault} :
    r.format form = .error fault ↔ r.Unformatted form fault := by
  constructor
  · intro failed
    cases form with
    | text => cases failed
    | summary => cases failed
    | json =>
      rw [format, toJson?] at failed
      cases made : r.members? with
      | none =>
        rw [made] at failed
        cases failed
        exact .json (members?_eq_none_iff.mp made)
      | some members =>
        rw [made] at failed
        cases failed
    | yaml =>
      rw [format] at failed
      cases made : r.members? with
      | none =>
        rw [made] at failed
        cases failed
        exact .yaml (members?_eq_none_iff.mp made)
      | some members =>
        rw [made] at failed
        cases failed
  · intro unformatted
    cases unformatted with
    | json raw => simp only [format, toJson?, members?_eq_none_iff.mpr raw, Option.map_none]
    | yaml raw => simp only [format, members?_eq_none_iff.mpr raw]

end Report

namespace Command

variable {p : Setup} {t : FileTree} {input : List UInt8} {m : Metadata} {a : Arguments}
  {s : Scanner} {r : Report} {fault : RunFault}

/-! ## What a run can come to -/

/-- The scanner is that of the arguments and the configuration file, and nothing is wrong
with its settings. -/
structure Prepares (p : Setup) (t : FileTree) (a : Arguments) (s : Scanner) : Prop where
  /-- The configuration file can be read, if there is one. -/
  config : ∃ file, ConfigFile.discover p.explain t a.config t.workingPath = .ok file ∧
    s.settings = a.scanSettings file
  /-- No setting is zero that may not be. -/
  valid : s.settings.sort.fault? = none
  /-- The globs and the ignore file can be read. -/
  filter : FileFilter.ofSettings t s.settings = .ok s.filter

/-- The fault ends the run before it has a report. -/
inductive Fails (p : Setup) (t : FileTree) (input : List UInt8) (a : Arguments) :
    RunFault → Prop where
  /-- The configuration file cannot be read. -/
  | config {fault : ConfigFault} :
      ConfigFile.discover p.explain t a.config t.workingPath = .error fault →
      Fails p t input a (.misconfigured fault)
  /-- A setting is zero that may not be. -/
  | setting {file : Option ConfigFile} {fault : SettingFault} :
      ConfigFile.discover p.explain t a.config t.workingPath = .ok file →
      (a.scanSettings file).sort.fault? = some fault →
      Fails p t input a (.failed (.misconfigured (.invalid fault)))
  /-- A glob or the ignore file cannot be read. -/
  | filter {file : Option ConfigFile} {fault : ConfigFault} :
      ConfigFile.discover p.explain t a.config t.workingPath = .ok file →
      (a.scanSettings file).sort.fault? = none →
      FileFilter.ofSettings t (a.scanSettings file) = .error fault →
      Fails p t input a (.failed (.misconfigured fault))
  /-- The input cannot be read.  The run does not go on, whatever the arguments say. -/
  | input {s : Scanner} {fault : ScanFault} :
      Prepares p t a s →
      a.paths = [] →
      p.build.panics s.settings.sort.maxLineLength = false →
      Scanner.reportFeed s.settings.sort inputName
        (.ofBytes s.settings.sort.maxLineLength input) = .error fault →
      Fails p t input a (.failed fault)
  /-- This file is the first that cannot be read, and the run does not go on. -/
  | file {s : Scanner} {fault : ScanFault} {front behind : List Path} {path : Path} :
      Prepares p t a s →
      a.paths ≠ [] →
      a.keepGoing = false →
      s.sourceFiles t = front ++ path :: behind →
      (∀ p' ∈ front, ∃ file, s.reportFileIn p.build t p' = some (.ok file)) →
      s.reportFileIn p.build t path = some (.error fault) →
      Fails p t input a (.failed fault)

/-- The run has this report. -/
inductive Completes (p : Setup) (t : FileTree) (input : List UInt8) (m : Metadata)
    (a : Arguments) : Report → Prop where
  /-- The report has the input as its one file. -/
  | input {s : Scanner} {file : FileReport} :
      Prepares p t a s →
      a.paths = [] →
      p.build.panics s.settings.sort.maxLineLength = false →
      Scanner.reportFeed s.settings.sort inputName
        (.ofBytes s.settings.sort.maxLineLength input) = .ok file →
      Completes p t input m a (Scanner.addFile (Scanner.emptyReport m) file)
  /-- The report has all files, in order. -/
  | files {s : Scanner} {r : Report} :
      Prepares p t a s →
      a.paths ≠ [] →
      s.scanIn p.build t m = some (.ok r) →
      r.files = (s.sourceFiles t).filterMap (s.success? t) →
      r.failures = (s.sourceFiles t).filterMap (s.failure? t) →
      Completes p t input m a r

/-- The fault ends the run before it puts anything out. -/
inductive Stops (p : Setup) (t : FileTree) (input : List UInt8) (m : Metadata)
    (a : Arguments) : RunFault → Prop where
  /-- The run has no report. -/
  | failed {fault : RunFault} : Fails p t input a fault → Stops p t input m a fault
  /-- The report has no form in the format. -/
  | unformatted {r : Report} {fault : FormatFault} :
      Completes p t input m a r →
      r.Unformatted (a.format.getD .text) fault →
      Stops p t input m a (.unformatted fault)

/-- The second text is the first with a newline at its end, unless it is empty. -/
inductive Ended : String → String → Prop where
  /-- Nothing stays nothing. -/
  | empty : Ended "" ""
  /-- There is a newline already. -/
  | already (line : String) : Ended (line ++ "\n") (line ++ "\n")
  /-- There is none. -/
  | added {text : String} : text ≠ "" → (∀ line, text ≠ line ++ "\n") → Ended text (text ++ "\n")

/-- The status of a report, and what is said of its failures. -/
structure Tells (r : Report) (o : Outcome) : Prop where
  /-- The status is zero just where no file failed. -/
  status : o.status = if r.failures = [] then 0 else 1
  /-- The failures are told in order. -/
  errors : o.errors = String.join (r.failures.map fun f => f.message ++ "\n")

/-- The outcome of a report with this text that goes to the file that is named, or else to
the output. -/
inductive Delivers (t : FileTree) (r : Report) (text : String) :
    Option Path → Outcome → Prop where
  /-- The text goes to the output. -/
  | shown {o : Outcome} :
      Tells r o → o.output = text → o.saved = none → o.tree = t →
      Delivers t r text none o
  /-- The text goes to the file. -/
  | saved {o : Outcome} {path : Path} :
      Tells r o → o.output = "" → o.saved = some (path, text) →
      t.write path (Utf8.encode text) = .ok o.tree →
      Delivers t r text (some path) o
  /-- The file cannot be written. -/
  | unsaved {o : Outcome} {path : Path} {cause : IoError} :
      t.write path (Utf8.encode text) = .error cause →
      o.status = 1 → o.output = "" →
      o.errors = "cannot write " ++ path.shown ++ ": " ++ cause.message ++ "\n" →
      o.saved = none → o.tree = t →
      Delivers t r text (some path) o

/-! ## The report of a run -/

theorem keepGoing_of_prepares (h : Prepares p t a s) : s.settings.keepGoing = a.keepGoing := by
  obtain ⟨file, -, settings⟩ := h.config
  rw [settings]
  rfl

theorem report_of_prepares (h : Prepares p t a s) :
    report p t input m a =
      (if a.paths = [] then s.scanInputIn p.build m inputName input
        else s.scanIn p.build t m).map (Except.mapError .failed) := by
  obtain ⟨file, found, settings⟩ := h.config
  have made := Scanner.ofSettings_eq_ok h.valid h.filter
  rw [settings] at made
  simp only [report, found, made, List.isEmpty_iff]

theorem report_of_input (h : Prepares p t a s) (noPaths : a.paths = [])
    (reads : p.build.panics s.settings.sort.maxLineLength = false) :
    report p t input m a =
      some (((Scanner.reportFeed s.settings.sort inputName
          (.ofBytes s.settings.sort.maxLineLength input)).map
        (Scanner.addFile (Scanner.emptyReport m))).mapError .failed) := by
  rw [report_of_prepares h, if_pos noPaths, Scanner.scanInputIn, reads,
    if_neg Bool.false_ne_true]
  rfl

theorem report_of_files (h : Prepares p t a s) (paths : a.paths ≠ []) :
    report p t input m a = (s.scanIn p.build t m).map (Except.mapError .failed) := by
  rw [report_of_prepares h, if_neg paths]

theorem report_of_fails (h : Fails p t input a fault) :
    report p t input m a = some (.error fault) := by
  cases h with
  | config unread => simp only [report, unread]
  | setting found invalid => simp only [report, found, Scanner.ofSettings, invalid]
  | filter found valid unread => simp only [report, found, Scanner.ofSettings, valid, unread]
  | input prepared noPaths reads unread =>
    rw [report_of_input prepared noPaths reads, unread]
    rfl
  | @file s fault front behind path prepared paths stops batch read failed =>
    have policy := (keepGoing_of_prepares prepared).trans stops
    have scanned : s.scanIn p.build t m = some (.error fault) :=
      Scanner.scanFromIn_eq_error_iff.mpr ⟨policy, _, _, _, batch, failed, read⟩
    rw [report_of_files prepared paths, scanned]
    rfl

theorem report_of_completes (h : Completes p t input m a r) :
    report p t input m a = some (.ok r) := by
  cases h with
  | input prepared noPaths reads read =>
    rw [report_of_input prepared noPaths reads, read]
    rfl
  | files prepared paths scanned =>
    rw [report_of_files prepared paths, scanned]
    rfl

theorem fails_or_prepares (p : Setup) (t : FileTree) (input : List UInt8) (a : Arguments) :
    (∃ fault, Fails p t input a fault) ∨ ∃ s, Prepares p t a s := by
  cases found : ConfigFile.discover p.explain t a.config t.workingPath with
  | error fault => exact .inl ⟨_, .config found⟩
  | ok file =>
    cases valid : (a.scanSettings file).sort.fault? with
    | some fault => exact .inl ⟨_, .setting found valid⟩
    | none =>
      cases filter : FileFilter.ofSettings t (a.scanSettings file) with
      | error fault => exact .inl ⟨_, .filter found valid filter⟩
      | ok f => exact .inr ⟨⟨a.scanSettings file, f⟩, ⟨file, found, rfl⟩, valid, filter⟩

/-- A run fails, or completes, or is one of a build whose reads panic. -/
theorem report_cases (p : Setup) (t : FileTree) (input : List UInt8) (m : Metadata)
    (a : Arguments) :
    (∃ fault, Fails p t input a fault) ∨ (∃ r, Completes p t input m a r) ∨
      (report p t input m a = none ∧
        ∃ s, Prepares p t a s ∧ p.build.panics s.settings.sort.maxLineLength = true) := by
  rcases fails_or_prepares p t input a with fails | ⟨s, prepared⟩
  · exact .inl fails
  by_cases noPaths : a.paths = []
  · cases reads : p.build.panics s.settings.sort.maxLineLength with
    | true =>
      refine .inr (.inr ⟨?_, s, prepared, reads⟩)
      rw [report_of_prepares prepared, if_pos noPaths, Scanner.scanInputIn, if_pos reads]
      rfl
    | false =>
      cases read : Scanner.reportFeed s.settings.sort inputName
        (.ofBytes s.settings.sort.maxLineLength input) with
      | error fault => exact .inl ⟨_, .input prepared noPaths reads read⟩
      | ok file => exact .inr (.inl ⟨_, .input prepared noPaths reads read⟩)
  · cases scanned : s.scanIn p.build t m with
    | none =>
      refine .inr (.inr ⟨?_, s, prepared, Scanner.panics_of_scanIn scanned⟩)
      rw [report_of_files prepared noPaths, scanned]
      rfl
    | some made =>
      have alike := Scanner.scanFromIn_eq_some scanned
      cases made with
      | error fault =>
        obtain ⟨policy, front, path, behind, batch, failed, read⟩ :=
          Scanner.scanFromIn_eq_error_iff.mp scanned
        have stops := (keepGoing_of_prepares prepared).symm.trans policy
        exact .inl ⟨_, .file prepared noPaths stops batch read failed⟩
      | ok r =>
        exact .inr (.inl ⟨r, .files prepared noPaths scanned
          (Scanner.files_of_scan alike.symm) (Scanner.failures_of_scan alike.symm)⟩)

theorem completes_of_report (reported : report p t input m a = some (.ok r)) :
    Completes p t input m a r := by
  rcases report_cases p t input m a with ⟨fault, fails⟩ | ⟨made, completes⟩ | ⟨none, -⟩
  · rw [report_of_fails fails] at reported
    cases reported
  · rw [report_of_completes completes] at reported
    cases reported
    exact completes
  · rw [none] at reported
    cases reported

/-! ## The outcome of a run -/

theorem ended_endLine (text : String) : Ended text (endLine text) := by
  by_cases empty : text = ""
  · rw [empty]
    exact .empty
  by_cases newline : text.toList.getLast? = some '\n'
  · obtain ⟨cs, chars⟩ := List.getLast?_eq_some_iff.mp newline
    have line : text = String.ofList cs ++ "\n" := by
      rw [← String.toList_inj, chars]
      simp
    rw [endLine, if_pos (by simp [newline]), line]
    exact .already _
  · rw [endLine, if_neg (by simp [empty, newline])]
    refine .added empty ?_
    rintro line rfl
    simp at newline

theorem tells_of_report {r : Report} {output : String} {saved : Option (Path × String)}
    {tree : FileTree} :
    Tells r {
      status := if r.hasFailures then 1 else 0
      output := output
      errors := failureLines r
      saved := saved
      tree := tree } := by
  refine ⟨?_, rfl⟩
  show (if (!r.failures.isEmpty) = true then 1 else 0) = if r.failures = [] then 0 else 1
  cases r.failures with
  | nil => rfl
  | cons failure failures => rfl

theorem delivers_deliver (t : FileTree) (a : Arguments) (r : Report) (text : String) :
    Delivers t r text a.output (deliver t a r text) := by
  unfold deliver
  cases a.output with
  | none => exact .shown tells_of_report rfl rfl rfl
  | some path =>
    dsimp only
    cases written : t.write path (Utf8.encode text) with
    | error cause => exact .unsaved written rfl rfl rfl rfl rfl
    | ok tree => exact .saved tells_of_report rfl rfl written

theorem run_of_stops (h : Stops p t input m a fault) :
    run p t input m a = some (failed t fault) := by
  rw [run]
  cases h with
  | failed fails =>
    rw [report_of_fails fails]
    rfl
  | unformatted completes unformatted =>
    rw [report_of_completes completes, Option.map_some, settle,
      Report.format_eq_error_iff.mpr unformatted]

theorem run_of_completes {shown : String} (h : Completes p t input m a r)
    (formatted : r.format (a.format.getD .text) = .ok shown) :
    run p t input m a = some (deliver t a r (endLine shown)) := by
  rw [run, report_of_completes h, Option.map_some, settle, formatted]

/-- A run that does not stop and does not panic has a report with a form. -/
theorem completes_of_runs (goesOn : ∀ fault, ¬ Stops p t input m a fault)
    (runs : run p t input m a ≠ none) :
    ∃ r shown, Completes p t input m a r ∧ r.format (a.format.getD .text) = .ok shown := by
  rcases report_cases p t input m a with ⟨fault, fails⟩ | ⟨r, completes⟩ | ⟨none, -⟩
  · exact absurd (.failed fails) (goesOn fault)
  · cases formatted : r.format (a.format.getD .text) with
    | error fault =>
      exact absurd (.unformatted completes (Report.format_eq_error_iff.mp formatted)) (goesOn _)
    | ok shown => exact ⟨r, shown, completes, formatted⟩
  · exact absurd (by rw [run, none]; rfl) runs

theorem execute_of_parse {texts : List RawText} (parsed : Arguments.parse texts = .ok a) :
    execute p t input m texts = run p t input m a := by
  rw [execute, parsed]

/-- A run puts out nothing and leaves all files as they were, or it puts its report out in
one piece, to the same text wherever it goes.  Only a build with checked sums may do neither,
under a limit to which it cannot add two. -/
theorem execute_all_or_nothing {texts : List RawText}
    (parsed : Arguments.parse texts = .ok a) (p : Setup) (t : FileTree) (input : List UInt8)
    (m : Metadata) :
    (∀ fault, Stops p t input m a fault →
      execute p t input m texts =
        some { status := 1, output := "", errors := fault.message ++ "\n", saved := none, tree := t }) ∧
    ((∀ fault, ¬ Stops p t input m a fault) → execute p t input m texts ≠ none →
      ∃ r shown text, Completes p t input m a r ∧ r.format (a.format.getD .text) = .ok shown ∧
        Ended shown text ∧
        ∀ texts' output, Arguments.parse texts' = .ok { a with output := output } →
          ∃ o, execute p t input m texts' = some o ∧ Delivers t r text output o) ∧
    (execute p t input m texts = none →
      p.build = .checked ∧ ∃ s, Prepares p t a s ∧
        UInt64.size ≤ s.settings.sort.maxLineLength.toNat + 2) := by
  rw [execute_of_parse parsed]
  refine ⟨fun fault stops => run_of_stops stops, fun goesOn runs => ?_, fun none => ?_⟩
  · obtain ⟨r, shown, completes, formatted⟩ := completes_of_runs goesOn runs
    refine ⟨r, shown, endLine shown, completes, formatted, ended_endLine shown, ?_⟩
    intro texts' output parsed'
    -- the report does not depend on where it goes
    have reported := report_of_completes completes
    have same : report p t input m { a with output := output } = some (.ok r) := reported
    have delivered := run_of_completes (completes_of_report same) formatted
    refine ⟨_, (execute_of_parse parsed').trans delivered, ?_⟩
    exact delivers_deliver t { a with output := output } r (endLine shown)
  · rcases report_cases p t input m a with ⟨fault, fails⟩ | ⟨r, completes⟩ | ⟨-, s, prepared, panics⟩
    · rw [run_of_stops (m := m) (.failed fails)] at none
      cases none
    · rw [run, report_of_completes completes] at none
      cases none
    · simp only [Build.panics, Bool.and_eq_true, decide_eq_true_eq] at panics
      exact ⟨panics.1, s, prepared, panics.2⟩

theorem execute_all_or_nothing_in_empty_tree :
    let p : Setup := { build := .checked, explain := id }
    let t : FileTree := ⟨.directory [], []⟩
    execute p t [] { timestamp := "" } ["-c", "b", "-oa"] =
        some {
          status := 1
          output := ""
          errors := "Failed to read config file b: No such file or directory (os error 2)\n"
          saved := none
          tree := t } ∧
      ∃ r text o, Completes p t [] { timestamp := "" }
          { paths := ["c"], keepGoing := true, output := some "a" } r ∧
        Ended r.blocks text ∧
        execute p t [] { timestamp := "" } ["--keep-going", "-oa", "c"] = some o ∧
        Delivers t r text (some "a") o := by
  intro p t
  constructor
  · have parsed : Arguments.parse [("-c" : RawText), "b", "-oa"] =
        .ok { config := some "b", output := some "a" } := rfl
    have stopped := (execute_all_or_nothing parsed p t [] { timestamp := "" }).1
      (.misconfigured (.unread "b" .notFound)) (.failed (.config rfl))
    have told : (RunFault.misconfigured (.unread "b" .notFound)).message ++ "\n" =
        "Failed to read config file b: No such file or directory (os error 2)\n" := by
      decide +kernel
    rwa [told] at stopped
  · have parsed : Arguments.parse [("--keep-going" : RawText), "-oa", "c"] =
        .ok { paths := ["c"], keepGoing := true, output := some "a" } := rfl
    have reported : (report p t [] { timestamp := "" }
        { paths := ["c"], keepGoing := true, output := some "a" }).any Except.toBool = true := by
      decide +kernel
    have goesOn : ∀ fault, ¬ Stops p t [] { timestamp := "" }
        { paths := ["c"], keepGoing := true, output := some "a" } fault := by
      intro fault stops
      cases stops with
      | failed fails =>
        rw [report_of_fails fails] at reported
        cases reported
      | unformatted completes unformatted => cases unformatted
    have runs : execute p t [] { timestamp := "" } ["--keep-going", "-oa", "c"] ≠ none := by
      rw [execute_of_parse parsed, run, ne_eq, Option.map_eq_none_iff]
      intro none
      rw [none] at reported
      cases reported
    obtain ⟨r, shown, text, completes, formatted, ended, delivers⟩ :=
      (execute_all_or_nothing parsed p t [] { timestamp := "" }).2.1 goesOn runs
    cases formatted
    obtain ⟨o, done, delivered⟩ := delivers [("--keep-going" : RawText), "-oa", "c"] (some "a") parsed
    exact ⟨r, text, o, completes, ended, done, delivered⟩

/-- So nothing may be put out though nothing fails: the report of a file whose name is no text
has no JSON.  And a run may panic. -/
theorem execute_unformatted :
    let p : Setup := { build := .checked, explain := id }
    let t : FileTree := ⟨.directory [(⟨[0xFF]⟩, .file [])], []⟩
    let a : Arguments := { paths := [⟨[0xFF]⟩], format := some .json }
    (∀ fault, ¬ Fails p t [] a fault) ∧
      (∃ r, Completes p t [] { timestamp := "" } a r ∧ r.failures = []) ∧
      execute p t [] { timestamp := "" } ["-f", "json", ⟨[0xFF]⟩] =
        some {
          status := 1
          output := ""
          errors := "JSON serialization error: path contains invalid UTF-8 characters\n"
          saved := none
          tree := t } ∧
      execute p t (Utf8.encode "import a\n") { timestamp := "" }
        ["--max-line-length", "18446744073709551614"] = none := by
  intro p t a
  have parsed : Arguments.parse [("-f" : RawText), "json", ⟨[0xFF]⟩] = .ok a := rfl
  have made : (report p t [] { timestamp := "" } a).any (fun result => result.toOption.any
      fun r => r.failures.isEmpty && r.toJson?.isNone) = true := by
    decide +kernel
  obtain ⟨r, reported, none, noTree⟩ : ∃ r, report p t [] { timestamp := "" } a = some (.ok r) ∧
      r.failures = [] ∧ r.toJson? = none := by
    cases reported : report p t [] { timestamp := "" } a with
    | none =>
      rw [reported] at made
      cases made
    | some result =>
      rw [reported] at made
      cases result with
      | error fault => cases made
      | ok r => exact ⟨r, rfl, by simpa [Except.toOption] using made⟩
  have unformatted : r.Unformatted .json .json :=
    Report.format_eq_error_iff.mp (by rw [Report.format, noTree])
  have completes := completes_of_report reported
  refine ⟨fun fault fails => ?_, ⟨r, completes, none⟩, ?_, ?_⟩
  · rw [report_of_fails fails] at reported
    cases reported
  · rw [execute_of_parse parsed, run_of_stops (.unformatted completes unformatted)]
    rfl
  · have panics : (execute p t (Utf8.encode "import a\n") { timestamp := "" }
        ["--max-line-length", "18446744073709551614"]).isNone = true := by
      decide +kernel
    exact Option.isNone_iff_eq_none.mp panics

end Command

end ImportTidy
