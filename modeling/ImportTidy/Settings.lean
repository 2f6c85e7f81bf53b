import ImportTidy.Layout
import ImportTidy.Path

/-!
# Settings

`SortSettings` is what one session of sorting is told.  Two of the numbers may
not be zero where a user sets them, and `SortSettings.fault?` finds the first that
is.  A session runs under any settings.

`ScanSettings` adds which files a scan reads.
-/

namespace ImportTidy

/-- What a session of sorting is told. -/
structure SortSettings where
  /-- Merge statements that import from the same source. -/
  squash : Bool := true
  /-- When and how statements are wrapped. -/
  wrap : WrapRule := {}
  /-- The most bytes of an input line, its terminator not counted. -/
  maxLineLength : UInt64 := 512
  /-- The libraries that are reported as known. -/
  knownLibraries : List String := []
deriving DecidableEq, Repr

/-- A setting that may not be zero. -/
inductive SettingFault where
  /-- A line of a wrapped statement takes no name. -/
  | wrapTakesNothing
  /-- A line of the input takes no byte. -/
  | lineTakesNothing
deriving DecidableEq, Repr

/-- The text of a faulty setting. -/
def SettingFault.message : SettingFault → String
  | .wrapTakesNothing => "import_on_each_wrap must be at least 1"
  | .lineTakesNothing => "max_line_length must be at least 1"

/-- The first setting that is zero and may not be. -/
def SortSettings.fault? (s : SortSettings) : Option SettingFault :=
  if s.wrap.each = 0 then some .wrapTakesNothing
  else if s.maxLineLength = 0 then some .lineTakesNothing
  else none

/-- What a scan is told. -/
structure ScanSettings where
  /-- The files and directories to go through. -/
  roots : List Path := ["."]
  /-- What the session of each file is told. -/
  sort : SortSettings := {}
  /-- The names of directories that are passed over. -/
  skippedDirectories : List String :=
    [".git", "__pycache__", ".venv", "venv", "node_modules", "build", "dist"]
  /-- The extensions of the files that are read. -/
  extensions : List String := ["py", "pyi"]
  /-- Globs of the paths that are passed over. -/
  ignoredGlobs : List String := []
  /-- A file of further such globs, in place of the one in the first root. -/
  ignoreFile : Option Path := none
  /-- Report a file that fails and go on. -/
  keepGoing : Bool := false
deriving DecidableEq, Repr

end ImportTidy
