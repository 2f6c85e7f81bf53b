import ImportTidy.ConfigFile.Syntax
import ImportTidy.FileFilter

/-!
# Configuration files

A configuration file sets some of the settings of a scan, and `ScanSettings.overlay` puts
what it sets over what was set before.

It is the file that a user names, or else the file `sortimports.toml` of the working
directory, if there is one.  A file that sets a key twice, an unknown key, or a key to a
value that it does not take is malformed.  What is told of a malformed text is left to a
function `explain`.
-/

namespace ImportTidy

/-- What a configuration file sets. -/
structure ConfigFile where
  /-- Merge statements that import from the same source. -/
  squash : Option Bool := none
  /-- Never wrap. -/
  wrapDisabled : Option Bool := none
  /-- The most names of a statement on one line. -/
  wrapFirst : Option Nat := none
  /-- The most names of the other lines of a wrapped statement. -/
  wrapEach : Option Nat := none
  /-- The last column. -/
  wrapColumn : Option Nat := none
  /-- The most bytes of an input line. -/
  maxLineLength : Option Nat := none
  /-- The known libraries. -/
  knownLibraries : Option (List String) := none
  /-- The names of directories that are passed over. -/
  skippedDirectories : Option (List String) := none
  /-- The extensions of the files that are read. -/
  extensions : Option (List String) := none
  /-- Globs of the paths that are passed over. -/
  ignoredGlobs : Option (List String) := none
deriving DecidableEq, Repr

namespace ConfigFile

/-- The name of the file that is looked for. -/
def fileName : String := "sortimports.toml"

/-! ## Reading -/

/-- The file with a key set to a value. -/
def set? (f : ConfigFile) (key : String) (value : ConfigSyntax.Value) : Option ConfigFile :=
  match key, value with
  | "squash_for_duplicate_library", .bool b => some { f with squash := some b }
  | "disable_wrapping", .bool b => some { f with wrapDisabled := some b }
  | "wrap_after_n_imports", .integer (.ofNat n) => some { f with wrapFirst := some n }
  | "import_on_each_wrap", .integer (.ofNat n) => some { f with wrapEach := some n }
  | "wrap_after_col", .integer (.ofNat n) => some { f with wrapColumn := some n }
  | "max_line_length", .integer (.ofNat n) => some { f with maxLineLength := some n }
  | "known_libraries", .texts ts => some { f with knownLibraries := some ts }
  | "skip_directories", .texts ts => some { f with skippedDirectories := some ts }
  | "extensions", .texts ts => some { f with extensions := some ts }
  | "ignore_patterns", .texts ts => some { f with ignoredGlobs := some ts }
  | _, _ => none

/-- The file that sets these keys. -/
def ofEntries? (entries : List (String × ConfigSyntax.Value)) : Option ConfigFile :=
  if (entries.map (·.1)).Nodup then entries.foldlM (fun f e => f.set? e.1 e.2) {} else none

/-- The file of a text. -/
def parse (text : String) : Option ConfigFile := (ConfigSyntax.parse text).bind ofEntries?

/-- The file at a path. -/
def load (explain : String → String) (t : FileTree) (path : Path) :
    Except ConfigFault ConfigFile :=
  match t.readText path with
  | .error cause => .error (.unread path cause)
  | .ok text =>
      match parse text with
      | none => .error (.malformed path (explain text))
      | some file => .ok file

/-- The file at the path that is named, or else the one in the directory, if it has one. -/
def discover (explain : String → String) (t : FileTree) (named : Option Path)
    (directory : Path) : Except ConfigFault (Option ConfigFile) :=
  match named with
  | some path => (load explain t path).map some
  | none =>
      let path := Path.entry directory fileName
      if t.isFile path then (load explain t path).map some else .ok none

end ConfigFile

/-! ## Applying -/

/-- The rule with what a file sets. -/
def WrapRule.overlay (rule : WrapRule) (f : ConfigFile) : WrapRule :=
  { disabled := f.wrapDisabled.getD rule.disabled
    first := f.wrapFirst.getD rule.first
    each := f.wrapEach.getD rule.each
    column := f.wrapColumn.getD rule.column }

/-- The settings of a session with what a file sets. -/
def SortSettings.overlay (s : SortSettings) (f : ConfigFile) : SortSettings :=
  { squash := f.squash.getD s.squash
    wrap := s.wrap.overlay f
    maxLineLength := (f.maxLineLength.map UInt64.ofNat).getD s.maxLineLength
    knownLibraries := f.knownLibraries.getD s.knownLibraries }

/-- The settings of a scan with what a file sets. -/
def ScanSettings.overlay (s : ScanSettings) (f : ConfigFile) : ScanSettings :=
  { s with
    sort := s.sort.overlay f
    skippedDirectories := f.skippedDirectories.getD s.skippedDirectories
    extensions := f.extensions.getD s.extensions
    ignoredGlobs := f.ignoredGlobs.getD s.ignoredGlobs }

end ImportTidy
