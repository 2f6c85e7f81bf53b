import ImportTidy.FileFilter
import ImportTidy.Report

/-!
# Scans

A scan reads the files under the roots of its settings, each in a session of its own,
and reports on all of them.

`Scanner.sourceFiles` are the paths of the files in order of the roots.  A root that is
no directory is taken as it is, also where nothing is there, so that reading it tells
what is wrong.  Below a root that is a directory come the entries with an extension that
the filter reads.  An entry that the filter passes over is left out with everything in
it.  Links below a root are not followed, and a root is never passed over.

A file that fails ends the scan with its fault.  Under `keepGoing` it is listed among the
failures instead, and the scan goes on.

Where the reads of a build panic, there is no report of a file that opens.  A scan that
comes to such a file panics (`Scanner.scanIn`), and otherwise it is the same in every
build.
-/

namespace ImportTidy

/-- What ends a scan. -/
inductive ScanFault where
  /-- The file could not be opened. -/
  | unopened (path : Path) (cause : IoError)
  /-- The file could not be read as a source. -/
  | unparsed (error : ParseError)
  /-- The settings are faulty. -/
  | misconfigured (fault : ConfigFault)
deriving DecidableEq, Repr

/-- The text of a fault. -/
def ScanFault.message : ScanFault → String
  | .unopened path cause => path.shown ++ ": cannot read input: " ++ cause.message
  | .unparsed error => error.message
  | .misconfigured fault => "Config error: " ++ fault.message

/-- Settings with the filter that they describe. -/
structure Scanner where
  /-- The settings. -/
  settings : ScanSettings
  /-- The filter. -/
  filter : FileFilter
deriving Repr

namespace Scanner

/-- The scanner of settings in a file tree. -/
def ofSettings (t : FileTree) (s : ScanSettings) : Except ScanFault Scanner :=
  match s.sort.fault? with
  | some fault => .error (.misconfigured (.invalid fault))
  | none =>
      match FileFilter.ofSettings t s with
      | .error fault => .error (.misconfigured fault)
      | .ok filter => .ok { settings := s, filter := filter }

/-! ## Finding files -/

mutual

/-- The files of an entry below a root. -/
def filesOf (f : FileFilter) (root path : Path) : Node → List Path
  | .directory entries =>
      if f.ignores root path true then [] else filesIn f root path entries
  | _ => if !f.ignores root path false && f.readsExtension path then [path] else []

/-- The files of the entries of a directory. -/
def filesIn (f : FileFilter) (root directory : Path) : List (RawText × Node) → List Path
  | [] => []
  | (name, node) :: entries =>
      filesOf f root (Path.entry directory name) node ++ filesIn f root directory entries

end

/-- The files of a root.  A root that is a link to a directory counts as an entry too. -/
def filesOfRoot (t : FileTree) (f : FileFilter) (root : Path) : List Path :=
  match t.resolve root with
  | .ok (.directory entries) =>
      let itself :=
        match t.find root with
        | .ok (.link _) => if f.readsExtension root then [root] else []
        | _ => []
      itself ++ filesIn f root root entries
  | _ => [root]

/-- The files under all roots. -/
def sourceFiles (t : FileTree) (s : Scanner) : List Path :=
  s.settings.roots.flatMap (filesOfRoot t s.filter)

/-! ## Reading files -/

/-- The report of an input under the path of a source. -/
def reportFeed (settings : SortSettings) (path : Path) (feed : Feed) :
    Except ScanFault FileReport :=
  match Session.run settings {} feed with
  | (session, none) => .ok (session.report settings path)
  | (_, some fault) => .error (.unparsed ⟨path.shown, fault⟩)

/-- The report of a file.  A directory opens like a file, and its first read fails. -/
def reportFile (t : FileTree) (s : Scanner) (path : Path) : Except ScanFault FileReport :=
  let sort := s.settings.sort
  match t.read path with
  | .ok bytes => reportFeed sort path (.ofBytes sort.maxLineLength bytes)
  | .error .isDirectory => reportFeed sort path (.ofFailure sort.maxLineLength .isDirectory)
  | .error cause => .error (.unopened path cause)

/-! ## Scanning -/

/-- A report of nothing. -/
def emptyReport (m : Metadata) : Report := { files := [], stats := {}, metadata := m }

/-- The report with one more file. -/
def addFile (r : Report) (file : FileReport) : Report :=
  { r with files := r.files ++ [file], stats := r.stats.record file }

/-- The report with one more file that failed. -/
def addFailure (r : Report) (path : Path) (fault : ScanFault) : Report :=
  { r with
    failures := r.failures ++ [{ path := path, message := fault.message }]
    stats := r.stats.recordFailure }

/-- The report with these files. -/
def scanFrom (t : FileTree) (s : Scanner) (r : Report) : List Path → Except ScanFault Report
  | [] => .ok r
  | path :: paths =>
      match reportFile t s path with
      | .ok file => scanFrom t s (addFile r file) paths
      | .error fault =>
          if s.settings.keepGoing then scanFrom t s (addFailure r path fault) paths
          else .error fault

/-- The report of a scan. -/
def scan (t : FileTree) (s : Scanner) (m : Metadata) : Except ScanFault Report :=
  scanFrom t s (emptyReport m) (s.sourceFiles t)

/-- The report of one input that is no file. -/
def scanInput (s : Scanner) (m : Metadata) (context : String) (input : List UInt8) :
    Except ScanFault Report :=
  let sort := s.settings.sort
  (reportFeed sort context (.ofBytes sort.maxLineLength input)).map (addFile (emptyReport m))

/-! ## Builds -/

/-- The path opens, so that a read is made. -/
def opens (t : FileTree) (path : Path) : Bool :=
  match t.read path with
  | .ok _ => true
  | .error cause => cause = .isDirectory

/-- The report that a build makes of a file, unless its first read panics. -/
def reportFileIn (b : Build) (t : FileTree) (s : Scanner) (path : Path) :
    Option (Except ScanFault FileReport) :=
  if b.panics s.settings.sort.maxLineLength && opens t path then none
  else some (s.reportFile t path)

/-- The report that a build makes with these files, unless it panics at one of them. -/
def scanFromIn (b : Build) (t : FileTree) (s : Scanner) (r : Report) :
    List Path → Option (Except ScanFault Report)
  | [] => some (.ok r)
  | path :: paths =>
      match s.reportFileIn b t path with
      | none => none
      | some (.ok file) => scanFromIn b t s (addFile r file) paths
      | some (.error fault) =>
          if s.settings.keepGoing then scanFromIn b t s (addFailure r path fault) paths
          else some (.error fault)

/-- The scan that a build makes, unless it panics. -/
def scanIn (b : Build) (t : FileTree) (s : Scanner) (m : Metadata) :
    Option (Except ScanFault Report) :=
  scanFromIn b t s (emptyReport m) (s.sourceFiles t)

/-- The report that a build makes of one input that is no file, unless it panics. -/
def scanInputIn (b : Build) (s : Scanner) (m : Metadata) (context : String)
    (input : List UInt8) : Option (Except ScanFault Report) :=
  if b.panics s.settings.sort.maxLineLength then none else some (s.scanInput m context input)

end Scanner

end ImportTidy
