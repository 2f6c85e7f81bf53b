import ImportTidy.IgnoreFile
import ImportTidy.Settings
import ImportTidy.Text.LetterCase

/-!
# Which files are read

A filter says which entries below a root a scan passes over, and which files have an
extension that it reads.

An entry is passed over for one of three reasons.

* Its path below the root matches the glob of a skipped directory.
* Its path below the root matches one of the ignored globs.
* The ignore file says so.  This is the file that the settings name, or else the
  `.gitignore` of the first root that is a directory.

So directories above a root never matter to the first two.  Extensions are compared in
lower case.  The globs and the extensions are texts, so they are compared with what is shown
of a path.
-/

namespace ImportTidy

/-- What is wrong with settings. -/
inductive ConfigFault where
  /-- The configuration file could not be read. -/
  | unread (path : Path) (cause : IoError)
  /-- The configuration file is malformed, as its reader says. -/
  | malformed (path : Path) (detail : String)
  /-- A setting is zero and may not be. -/
  | invalid (fault : SettingFault)
  /-- The text is no glob. -/
  | badGlob (text : String) (fault : GlobFault)
  /-- The ignore file is faulty. -/
  | badIgnoreFile (fault : IgnoreFault)
deriving DecidableEq, Repr

/-- The text of a fault. -/
def ConfigFault.message : ConfigFault → String
  | .unread path cause => "Failed to read config file " ++ path.shown ++ ": " ++ cause.message
  | .malformed path detail => "Failed to parse config file " ++ path.shown ++ ": " ++ detail
  | .invalid fault => "Invalid configuration: " ++ fault.message
  | .badGlob text fault => "Failed to build glob pattern: " ++ fault.report text
  | .badIgnoreFile fault => "Failed to parse gitignore: " ++ fault.message

/-- Which entries are passed over and which files are read. -/
structure FileFilter where
  /-- The ignore file, if there is one. -/
  ignoreFile : Option IgnoreFile
  /-- The globs of ignored paths. -/
  ignoredGlobs : List Glob
  /-- The globs of skipped directories. -/
  skippedGlobs : List Glob
  /-- The extensions in lower case. -/
  extensions : List String
deriving Repr

namespace FileFilter

/-! ## Building a filter -/

/-- The ignore file that a root brings with it. -/
def rootIgnoreFile (t : FileTree) (roots : List Path) : Except IgnoreFault (Option IgnoreFile) :=
  match roots.find? t.isDirectory with
  | none => .ok none
  | some root =>
      let path := Path.entry root ".gitignore"
      if t.holds path then (IgnoreFile.load t root path).map some else .ok none

/-- The ignore file of the settings. -/
def ignoreFileOf (t : FileTree) (s : ScanSettings) : Except IgnoreFault (Option IgnoreFile) :=
  match s.ignoreFile with
  | some path => (IgnoreFile.load t ((Path.parent? path).getD ".") path).map some
  | none => rootIgnoreFile t s.roots

/-- The globs of texts, or the first text that is none. -/
def globsOf : List String → Except ConfigFault (List Glob)
  | [] => .ok []
  | text :: texts =>
      match Glob.parse text with
      | .error fault => .error (.badGlob text fault)
      | .ok glob => (globsOf texts).map (glob :: ·)

/-- The texts of the globs of a skipped directory: what lies in it, and the directory. -/
def skipTexts (directory : String) : List String :=
  ["**/" ++ directory ++ "/**", "**/" ++ directory]

/-- An extension as it is compared: in lower case, without dots in front. -/
def normalExtension (extension : String) : String :=
  LetterCase.lower (String.ofList (extension.toList.dropWhile (· = '.')))

/-- The filter of settings in a file tree. -/
def ofSettings (t : FileTree) (s : ScanSettings) : Except ConfigFault FileFilter :=
  match ignoreFileOf t s with
  | .error fault => .error (.badIgnoreFile fault)
  | .ok ignoreFile =>
      match globsOf s.ignoredGlobs with
      | .error fault => .error fault
      | .ok ignoredGlobs =>
          match globsOf (s.skippedDirectories.flatMap skipTexts) with
          | .error fault => .error fault
          | .ok skippedGlobs =>
              .ok {
                ignoreFile := ignoreFile
                ignoredGlobs := ignoredGlobs
                skippedGlobs := skippedGlobs
                extensions := s.extensions.map normalExtension }

/-! ## Asking a filter -/

/-- What the globs of a root see of a path: the path below the root, as it is shown. -/
def viewOf (root path : Path) : String := ((Path.within? path root).getD path).shown

/-- A path found below a root is passed over. -/
def ignores (f : FileFilter) (root path : Path) (isDirectory : Bool) : Bool :=
  let view := viewOf root path
  f.skippedGlobs.any (·.isMatch view) || f.ignoredGlobs.any (·.isMatch view)
    || f.ignoreFile.any (·.ignores path isDirectory)

/-- The file has one of the extensions. -/
def readsExtension (f : FileFilter) (path : Path) : Bool :=
  (Path.extension? path).any fun extension =>
    f.extensions.contains (LetterCase.lower extension.shown)

end FileFilter

end ImportTidy
