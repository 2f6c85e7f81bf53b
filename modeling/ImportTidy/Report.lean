import ImportTidy.Category
import ImportTidy.Session

/-!
# Reports

A report says what a run did: the groups of each file with the rendered text, the
files that failed, and counts over all files.

`Session.report` is the report of one file.  Its names are sorted, and each group
with a source has the category of that source.

`Stats.record` counts one file.  A group counts as one with a source where its
source is shown.
-/

namespace ImportTidy

/-- A group of a file. -/
structure GroupReport where
  /-- The word its statement starts with. -/
  kind : String
  /-- The source, unless the group is plain. -/
  source : Option String := none
  /-- The names in natural order. -/
  names : List String
  /-- The line of the statement that made the group. -/
  line : Nat
  /-- The category of the source. -/
  category : Option Category := none
deriving DecidableEq, Repr

/-- What became of a file. -/
structure FileReport where
  /-- The path of the file, or what stands for one. -/
  path : Path
  /-- Its groups. -/
  groups : List GroupReport
  /-- Its rendered import block. -/
  text : String
deriving DecidableEq, Repr

/-- A file that failed. -/
structure FileFailure where
  /-- Its path. -/
  path : Path
  /-- What is wrong with it. -/
  message : String
deriving DecidableEq, Repr

/-- Counts over files. -/
structure Stats where
  /-- Files that were read to their end. -/
  files : Nat := 0
  /-- Files that failed. -/
  failures : Nat := 0
  /-- Groups. -/
  groups : Nat := 0
  /-- Groups with a source. -/
  sourceGroups : Nat := 0
  /-- Groups without a source. -/
  plainGroups : Nat := 0
  /-- Names of all groups. -/
  names : Nat := 0
  /-- Groups of a known library. -/
  known : Nat := 0
  /-- Groups of a module of the same package. -/
  relative : Nat := 0
  /-- Groups of a module of the standard library. -/
  standard : Nat := 0
  /-- Groups of any other module. -/
  unknown : Nat := 0
deriving DecidableEq, Repr

/-- The version of this tool. -/
def toolVersion : String := "0.1.0"

/-- When a run was, and by which tool. -/
structure Metadata where
  /-- How long it took, in milliseconds. -/
  duration : Nat := 0
  /-- When it began. -/
  timestamp : String
  /-- The version of the tool. -/
  toolVersion : String := ImportTidy.toolVersion
deriving DecidableEq, Repr

/-- What a run did. -/
structure Report where
  /-- The files read to their end. -/
  files : List FileReport
  /-- The files that failed. -/
  failures : List FileFailure := []
  /-- Counts over the files. -/
  stats : Stats
  /-- When it was. -/
  metadata : Metadata
deriving DecidableEq, Repr

/-! ## Counting -/

/-- The counts with one more group of this category. -/
def Stats.recordCategory (s : Stats) : Option Category → Stats
  | none => s
  | some .known => { s with known := s.known + 1 }
  | some .relative => { s with relative := s.relative + 1 }
  | some .standard => { s with standard := s.standard + 1 }
  | some .unknown => { s with unknown := s.unknown + 1 }

/-- The counts with one more group. -/
def Stats.recordGroup (s : Stats) (g : GroupReport) : Stats :=
  let counted := { s with groups := s.groups + 1, names := s.names + g.names.length }
  let placed :=
    if g.source.isSome then { counted with sourceGroups := counted.sourceGroups + 1 }
    else { counted with plainGroups := counted.plainGroups + 1 }
  placed.recordCategory g.category

/-- The counts with one more file. -/
def Stats.record (s : Stats) (file : FileReport) : Stats :=
  file.groups.foldl Stats.recordGroup { s with files := s.files + 1 }

/-- The counts with one more file that failed. -/
def Stats.recordFailure (s : Stats) : Stats := { s with failures := s.failures + 1 }

/-! ## The report of a session -/

/-- The report of a group. -/
def Group.report (libraries : List String) (a : Arena) (g : Group) : GroupReport :=
  { kind := if g.isPlain then "import" else "from"
    source := g.source? a
    names := Session.sortedNames a g
    line := g.line
    category := (g.source? a).map (Category.ofModule libraries) }

/-- The report of a session as that of the file at this path. -/
def Session.report (settings : SortSettings) (s : Session) (path : Path) : FileReport :=
  { path := path
    groups := s.groups.map (Group.report settings.knownLibraries s.arena)
    text := s.render settings.wrap }

/-- Some file failed. -/
def Report.hasFailures (r : Report) : Bool := !r.failures.isEmpty

end ImportTidy
