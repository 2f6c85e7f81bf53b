import ImportTidy.Scan

/-!
# The files of a batch

A scan goes through the files of a batch one after the other, and what it makes of a file
does not depend on the others.  `Scanner.record` is one step: the report with what came of
one more file, be it a report or a failure.

The policy for files that fail decides only whether the first fault ends the scan.  Under
`keepGoing` a scan is the fold of that step over all files (`Scanner.scanFrom_of_goesOn`).
Otherwise it is the same fold, unless some file fails, and then it is the fault of the
first one (`Scanner.scanFrom_of_stops`).  So two scans of one batch agree as far as both go
(`Scanner.scan_keeping`), and a report that comes back has what each file has alone
(`Scanner.files_of_scan`, `Scanner.failures_of_scan`).

What a build makes of a batch is the same, unless it panics (`Scanner.scanFromIn_eq_some`),
and a build whose reads do not panic makes it of every batch
(`Scanner.scanFromIn_of_not_panics`).
-/

namespace ImportTidy.Scanner

variable {t : FileTree} {s : Scanner} {path : Path}

/-- The scanner under this policy for files that fail. -/
def keeping (s : Scanner) (goesOn : Bool) : Scanner :=
  { s with settings := { s.settings with keepGoing := goesOn } }

theorem sourceFiles_keeping (t : FileTree) (s : Scanner) (goesOn : Bool) :
    (s.keeping goesOn).sourceFiles t = s.sourceFiles t := rfl

/-! ## One file alone -/

/-- The report of a file that can be read to its end. -/
def success? (t : FileTree) (s : Scanner) (path : Path) : Option FileReport :=
  (s.reportFile t path).toOption

/-- What is wrong with a file. -/
def fault? (t : FileTree) (s : Scanner) (path : Path) : Option ScanFault :=
  match s.reportFile t path with
  | .ok _ => none
  | .error fault => some fault

/-- How a report tells of a file that fails. -/
def failure? (t : FileTree) (s : Scanner) (path : Path) : Option FileFailure :=
  (s.fault? t path).map fun fault => { path := path, message := fault.message }

theorem reportFeed_eq_ok_iff {settings : SortSettings} {feed : Feed} {file : FileReport} :
    reportFeed settings path feed = .ok file ↔
      (Session.run settings {} feed).2 = none ∧
        (Session.run settings {} feed).1.report settings path = file := by
  unfold reportFeed
  rcases Session.run settings {} feed with ⟨session, _ | fault⟩
  · simp
  · simp

/-- What opens is read as a feed, be it a file or a directory. -/
theorem exists_feed_of_reportFile {file : FileReport} (read : s.reportFile t path = .ok file) :
    ∃ feed, reportFeed s.settings.sort path feed = .ok file := by
  unfold reportFile at read
  dsimp only at read
  split at read
  · exact ⟨_, read⟩
  · exact ⟨_, read⟩
  · cases read

theorem path_of_reportFile {file : FileReport} (read : s.reportFile t path = .ok file) :
    file.path = path := by
  obtain ⟨feed, read⟩ := exists_feed_of_reportFile read
  obtain ⟨-, rfl⟩ := reportFeed_eq_ok_iff.mp read
  rfl

theorem success?_eq_some_iff {file : FileReport} :
    s.success? t path = some file ↔ s.reportFile t path = .ok file := by
  unfold success?
  cases s.reportFile t path with
  | ok found => simp [Except.toOption]
  | error fault => simp [Except.toOption]

theorem fault?_eq_some_iff {fault : ScanFault} :
    s.fault? t path = some fault ↔ s.reportFile t path = .error fault := by
  unfold fault?
  cases s.reportFile t path with
  | ok file => simp
  | error found => simp

theorem fault?_eq_none_iff : s.fault? t path = none ↔ ∃ file, s.reportFile t path = .ok file := by
  unfold fault?
  cases s.reportFile t path with
  | ok file => simp
  | error fault => simp

theorem path_of_success? {file : FileReport} (success : s.success? t path = some file) :
    file.path = path :=
  path_of_reportFile (success?_eq_some_iff.mp success)

theorem path_of_failure? {failure : FileFailure} (failed : s.failure? t path = some failure) :
    failure.path = path := by
  obtain ⟨fault, -, rfl⟩ := Option.map_eq_some_iff.mp failed
  rfl

theorem failure?_of_success? {file : FileReport} (success : s.success? t path = some file) :
    s.failure? t path = none := by
  rw [failure?, fault?_eq_none_iff.mpr ⟨file, success?_eq_some_iff.mp success⟩]
  rfl

theorem failure?_of_not_success? (unread : s.success? t path = none) :
    ∃ failure, s.failure? t path = some failure := by
  cases read : s.reportFile t path with
  | ok file =>
    rw [success?_eq_some_iff.mpr read] at unread
    cases unread
  | error fault =>
    rw [failure?, fault?_eq_some_iff.mpr read]
    exact ⟨_, rfl⟩

/-- Each occurrence of a path is with the reports or with the failures. -/
theorem perm_paths (t : FileTree) (s : Scanner) (paths : List Path) :
    ((paths.filterMap (s.success? t)).map FileReport.path
      ++ (paths.filterMap (s.failure? t)).map FileFailure.path).Perm paths := by
  induction paths with
  | nil => exact .nil
  | cons path paths ih =>
    cases success : s.success? t path with
    | none =>
      obtain ⟨failure, failed⟩ := failure?_of_not_success? success
      simp only [List.filterMap_cons, success, failed, List.map_cons, path_of_failure? failed]
      exact List.perm_middle.trans (ih.cons path)
    | some file =>
      simp only [List.filterMap_cons, success, failure?_of_success? success, List.map_cons,
        path_of_success? success]
      exact ih.cons path

/-- No path is both with the reports and with the failures. -/
theorem disjoint_paths (t : FileTree) (s : Scanner) (paths : List Path) :
    ∀ path ∈ (paths.filterMap (s.success? t)).map FileReport.path,
      path ∉ (paths.filterMap (s.failure? t)).map FileFailure.path := by
  intro path read failed
  obtain ⟨file, ⟨p, -, success⟩, hp⟩ := by simpa only [List.mem_map, List.mem_filterMap] using read
  obtain ⟨failure, ⟨q, -, failing⟩, hq⟩ := by
    simpa only [List.mem_map, List.mem_filterMap] using failed
  have same : p = q := by
    rw [← path_of_success? success, ← path_of_failure? failing, hp, hq]
  subst same
  rw [failure?_of_success? success] at failing
  cases failing

/-! ## One more file -/

/-- The report with what came of one more file. -/
def record (t : FileTree) (s : Scanner) (r : Report) (path : Path) : Report :=
  match s.reportFile t path with
  | .ok file => addFile r file
  | .error fault => addFailure r path fault

theorem files_record (r : Report) (path : Path) :
    (s.record t r path).files = r.files ++ (s.success? t path).toList := by
  unfold record success?
  cases s.reportFile t path with
  | ok file => rfl
  | error fault => simp [addFailure, Except.toOption]

theorem failures_record (r : Report) (path : Path) :
    (s.record t r path).failures = r.failures ++ (s.failure? t path).toList := by
  unfold record failure? fault?
  cases s.reportFile t path with
  | ok file => simp [addFile]
  | error fault => rfl

theorem record_keeping (t : FileTree) (s : Scanner) (goesOn : Bool) :
    (s.keeping goesOn).record t = s.record t := rfl

theorem fault?_keeping (t : FileTree) (s : Scanner) (goesOn : Bool) :
    (s.keeping goesOn).fault? t = s.fault? t := rfl

theorem record_of_success {r : Report} {file : FileReport}
    (read : s.reportFile t path = .ok file) : s.record t r path = addFile r file := by
  rw [record, read]

theorem record_of_fault {r : Report} {fault : ScanFault}
    (failed : s.reportFile t path = .error fault) :
    s.record t r path = addFailure r path fault := by
  rw [record, failed]

/-! ## All files -/

theorem files_foldl_record (r : Report) (paths : List Path) :
    (paths.foldl (s.record t) r).files = r.files ++ paths.filterMap (s.success? t) := by
  induction paths generalizing r with
  | nil => simp
  | cons path paths ih =>
    rw [List.foldl_cons, ih, files_record, List.filterMap_cons]
    cases s.success? t path <;> simp

theorem failures_foldl_record (r : Report) (paths : List Path) :
    (paths.foldl (s.record t) r).failures = r.failures ++ paths.filterMap (s.failure? t) := by
  induction paths generalizing r with
  | nil => simp
  | cons path paths ih =>
    rw [List.foldl_cons, ih, failures_record, List.filterMap_cons]
    cases s.failure? t path <;> simp

theorem scanFrom_of_goesOn (goesOn : s.settings.keepGoing = true) (r : Report)
    (paths : List Path) : s.scanFrom t r paths = .ok (paths.foldl (s.record t) r) := by
  induction paths generalizing r with
  | nil => rfl
  | cons path paths ih =>
    rw [List.foldl_cons, scanFrom]
    cases read : s.reportFile t path with
    | ok file => rw [record_of_success read, ← ih]
    | error fault =>
      rw [record_of_fault read, ← ih]
      simp only [goesOn, if_true]

theorem scanFrom_of_stops (stops : s.settings.keepGoing = false) (r : Report)
    (paths : List Path) :
    s.scanFrom t r paths =
      match paths.findSome? (s.fault? t) with
      | some fault => .error fault
      | none => .ok (paths.foldl (s.record t) r) := by
  induction paths generalizing r with
  | nil => rfl
  | cons path paths ih =>
    rw [List.foldl_cons, scanFrom, List.findSome?_cons]
    cases read : s.reportFile t path with
    | ok file =>
      rw [fault?_eq_none_iff.mpr ⟨file, read⟩, record_of_success read]
      exact ih (addFile r file)
    | error fault =>
      rw [fault?_eq_some_iff.mpr read]
      simp only [stops, Bool.false_eq_true, if_false]

theorem scanFrom_eq_ok {r r' : Report} {paths : List Path}
    (done : s.scanFrom t r paths = .ok r') : r' = paths.foldl (s.record t) r := by
  cases policy : s.settings.keepGoing with
  | true =>
    rw [scanFrom_of_goesOn policy] at done
    exact (Except.ok.inj done).symm
  | false =>
    rw [scanFrom_of_stops policy] at done
    cases first : paths.findSome? (s.fault? t) with
    | none =>
      rw [first] at done
      exact (Except.ok.inj done).symm
    | some fault =>
      rw [first] at done
      cases done

theorem files_of_scan {m : Metadata} {r : Report} (done : s.scan t m = .ok r) :
    r.files = (s.sourceFiles t).filterMap (s.success? t) := by
  rw [scanFrom_eq_ok done, files_foldl_record]
  rfl

theorem failures_of_scan {m : Metadata} {r : Report} (done : s.scan t m = .ok r) :
    r.failures = (s.sourceFiles t).filterMap (s.failure? t) := by
  rw [scanFrom_eq_ok done, failures_foldl_record]
  rfl

/-- No file of the batch fails where no failure is listed. -/
theorem findSome?_fault?_eq_none_iff (t : FileTree) (s : Scanner) (paths : List Path) :
    paths.findSome? (s.fault? t) = none ↔ paths.filterMap (s.failure? t) = [] := by
  simp [failure?]

/-- The two policies on one batch.  Where the scan goes on, each file is with the reports
or with the failures, as it would be alone.  Where it does not, the scan is the fault of
the first file that fails, and otherwise it is the same report. -/
theorem scan_keeping (t : FileTree) (s : Scanner) (m : Metadata) :
    ∃ r, (s.keeping true).scan t m = .ok r ∧
      r.files = (s.sourceFiles t).filterMap (s.success? t) ∧
      r.failures = (s.sourceFiles t).filterMap (s.failure? t) ∧
      (r.files.map FileReport.path ++ r.failures.map FileFailure.path).Perm (s.sourceFiles t) ∧
      (∀ path ∈ r.files.map FileReport.path, path ∉ r.failures.map FileFailure.path) ∧
      ((s.sourceFiles t).findSome? (s.fault? t) = none ↔ r.failures = []) ∧
      (s.keeping false).scan t m =
        match (s.sourceFiles t).findSome? (s.fault? t) with
        | some fault => .error fault
        | none => .ok r := by
  let paths := s.sourceFiles t
  let r := paths.foldl (s.record t) (emptyReport m)
  -- neither the files nor what becomes of one alone depends on the policy
  have goesOn : (s.keeping true).scan t m = .ok r := by
    rw [scan, scanFrom_of_goesOn rfl, sourceFiles_keeping, record_keeping]
  have stops : (s.keeping false).scan t m =
      match paths.findSome? (s.fault? t) with
      | some fault => .error fault
      | none => .ok r := by
    rw [scan, scanFrom_of_stops rfl, sourceFiles_keeping, record_keeping, fault?_keeping]
  have files : r.files = paths.filterMap (s.success? t) :=
    files_of_scan (s := s.keeping true) goesOn
  have failures : r.failures = paths.filterMap (s.failure? t) :=
    failures_of_scan (s := s.keeping true) goesOn
  refine ⟨r, goesOn, files, failures, ?_, ?_, ?_, stops⟩
  · rw [files, failures]
    exact perm_paths t s paths
  · rw [files, failures]
    exact disjoint_paths t s paths
  · rw [failures]
    exact findSome?_fault?_eq_none_iff t s paths

/-! ## Builds -/

variable {b : Build} {r : Report} {paths : List Path}

theorem reportFileIn_eq_some {made : Except ScanFault FileReport}
    (h : s.reportFileIn b t path = some made) : made = s.reportFile t path := by
  unfold reportFileIn at h
  split at h
  · cases h
  · exact (Option.some.inj h).symm

theorem scanFromIn_eq_some {made : Except ScanFault Report}
    (h : s.scanFromIn b t r paths = some made) : made = s.scanFrom t r paths := by
  induction paths generalizing r with
  | nil => exact (Option.some.inj h).symm
  | cons path paths ih =>
    rw [scanFromIn] at h
    cases read : s.reportFileIn b t path with
    | none =>
      rw [read] at h
      cases h
    | some result =>
      have same := reportFileIn_eq_some read
      rw [read] at h
      rw [scanFrom, ← same]
      cases result with
      | ok file => exact ih h
      | error fault =>
        dsimp only at h ⊢
        split at h
        next goesOn =>
          rw [if_pos goesOn]
          exact ih h
        next stops =>
          rw [if_neg stops]
          exact (Option.some.inj h).symm

theorem scanFromIn_of_not_panics (reads : b.panics s.settings.sort.maxLineLength = false)
    (r : Report) (paths : List Path) :
    s.scanFromIn b t r paths = some (s.scanFrom t r paths) := by
  have alone : ∀ path, s.reportFileIn b t path = some (s.reportFile t path) := by
    intro path
    rw [reportFileIn, reads, Bool.false_and, if_neg Bool.false_ne_true]
  induction paths generalizing r with
  | nil => rfl
  | cons path paths ih =>
    rw [scanFromIn, scanFrom, alone]
    cases s.reportFile t path with
    | ok file => exact ih _
    | error fault =>
      dsimp only
      rw [ih]
      split <;> rfl

/-- A scan that panics has a limit under which every read does. -/
theorem panics_of_scanIn {m : Metadata} (h : s.scanIn b t m = none) :
    b.panics s.settings.sort.maxLineLength = true := by
  cases reads : b.panics s.settings.sort.maxLineLength with
  | true => rfl
  | false =>
    rw [scanIn, scanFromIn_of_not_panics reads] at h
    cases h

/-- The first of a list with a property is its head, or the head has another one and the first
is among the others. -/
theorem exists_first_cons {α : Type} {p q : α → Prop} {x : α} {xs : List α} :
    (∃ front y behind, x :: xs = front ++ y :: behind ∧ p y ∧ ∀ z ∈ front, q z) ↔
      p x ∨ q x ∧ ∃ front y behind, xs = front ++ y :: behind ∧ p y ∧ ∀ z ∈ front, q z := by
  constructor
  · rintro ⟨front, y, behind, whole, last, before⟩
    cases front with
    | nil =>
      cases whole
      exact .inl last
    | cons z front =>
      cases whole
      obtain ⟨first, others⟩ := List.forall_mem_cons.mp before
      exact .inr ⟨first, front, y, behind, rfl, last, others⟩
  · rintro (head | ⟨first, front, y, behind, rfl, last, others⟩)
    · exact ⟨[], x, xs, rfl, head, nofun⟩
    · exact ⟨x :: front, y, behind, rfl, last, List.forall_mem_cons.mpr ⟨first, others⟩⟩

/-- A build makes a fault of a batch just where it does not go on and comes to a file that
fails. -/
theorem scanFromIn_eq_error_iff {fault : ScanFault} :
    s.scanFromIn b t r paths = some (.error fault) ↔
      s.settings.keepGoing = false ∧ ∃ front path behind, paths = front ++ path :: behind ∧
        s.reportFileIn b t path = some (.error fault) ∧
        ∀ p ∈ front, ∃ file, s.reportFileIn b t p = some (.ok file) := by
  induction paths generalizing r with
  | nil => simp [scanFromIn]
  | cons path paths ih =>
    rw [scanFromIn, exists_first_cons]
    cases s.reportFileIn b t path with
    | none => simp
    | some made =>
      cases made with
      | ok file => simp [ih]
      | error found =>
        cases policy : s.settings.keepGoing with
        | true => simp [ih, policy]
        | false => simp

end ImportTidy.Scanner
