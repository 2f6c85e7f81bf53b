import ImportTidy.Command.Arguments
import ImportTidy.Scan

/-!
# Runs of the command

A run reads a configuration, scans files or reads its input, and puts out a report.

`Command.run` gives the outcome of a run: the status that it ends with, what it puts out
on each stream, and the file that it saves.  Where anything fails before the report is
complete and has a form, nothing is put out and nothing is saved, and the status is one.
The status is one as well where a file failed and the run went on.  A run that panics has
no outcome.

Without paths a run reads its input, under the name `<stdin>`.
-/

namespace ImportTidy

/-- What a run did. -/
structure Outcome where
  /-- The status that it ends with. -/
  status : Nat
  /-- What it puts out. -/
  output : String := ""
  /-- What it says of faults. -/
  errors : String := ""
  /-- The file that it saves, with its text. -/
  saved : Option (Path × String) := none
  /-- The file tree behind it. -/
  tree : FileTree
deriving Repr

/-- Why a run came to nothing. -/
inductive RunFault where
  /-- The configuration file is faulty. -/
  | misconfigured (fault : ConfigFault)
  /-- The scan failed. -/
  | failed (fault : ScanFault)
  /-- The report has no such form. -/
  | unformatted (fault : FormatFault)
  /-- The report could not be saved. -/
  | unsaved (path : Path) (cause : IoError)
deriving DecidableEq, Repr

/-- The text of a fault. -/
def RunFault.message : RunFault → String
  | .misconfigured fault => fault.message
  | .failed fault => fault.message
  | .unformatted fault => fault.message
  | .unsaved path cause => "cannot write " ++ path.shown ++ ": " ++ cause.message

/-- The path of the working directory. -/
def FileTree.workingPath (t : FileTree) : Path := "/" ++ Path.join t.working

namespace Command

/-- What a run depends on beside its arguments and the files. -/
structure Setup where
  /-- How the program is built. -/
  build : Build
  /-- What is told of a malformed text of a configuration. -/
  explain : String → String

/-- The name of the input in a report. -/
def inputName : String := "<stdin>"

/-- The text with a newline at its end, unless it is empty. -/
def endLine (text : String) : String :=
  if text = "" || text.toList.getLast? = some '\n' then text else text ++ "\n"

/-- The report that the arguments ask for, unless the run panics. -/
def report (p : Setup) (t : FileTree) (input : List UInt8) (m : Metadata) (a : Arguments) :
    Option (Except RunFault Report) :=
  match ConfigFile.discover p.explain t a.config t.workingPath with
  | .error fault => some (.error (.misconfigured fault))
  | .ok file =>
      match Scanner.ofSettings t (a.scanSettings file) with
      | .error fault => some (.error (.failed fault))
      | .ok scanner =>
          let scanned :=
            if a.paths.isEmpty then scanner.scanInputIn p.build m inputName input
            else scanner.scanIn p.build t m
          scanned.map (Except.mapError .failed)

/-- The messages of the failures of a report, each with a newline. -/
def failureLines (r : Report) : String := String.join (r.failures.map fun f => f.message ++ "\n")

/-- The outcome of a fault. -/
def failed (t : FileTree) (fault : RunFault) : Outcome :=
  { status := 1, errors := fault.message ++ "\n", tree := t }

/-- The outcome of a report whose text goes to the file that the arguments name, or else to
the output. -/
def deliver (t : FileTree) (a : Arguments) (r : Report) (text : String) : Outcome :=
  let status := if r.hasFailures then 1 else 0
  match a.output with
  | none => { status := status, output := text, errors := failureLines r, tree := t }
  | some path =>
      match t.write path (Utf8.encode text) with
      | .error cause => failed t (.unsaved path cause)
      | .ok written =>
          { status := status, errors := failureLines r, saved := some (path, text), tree := written }

/-- The outcome of what came of the report. -/
def settle (t : FileTree) (a : Arguments) : Except RunFault Report → Outcome
  | .error fault => failed t fault
  | .ok r =>
      match r.format (a.format.getD .text) with
      | .error fault => failed t (.unformatted fault)
      | .ok text => deliver t a r (endLine text)

/-- The outcome of a run, unless it panics. -/
def run (p : Setup) (t : FileTree) (input : List UInt8) (m : Metadata) (a : Arguments) :
    Option Outcome :=
  (report p t input m a).map (settle t a)

/-! ## Without a run -/

/-- The version of the command. -/
def versionText : String := "sortimports " ++ toolVersion ++ "\n"

/-- What the command is for and how it is called. -/
def helpText : String :=
  "Deduplicate, sort and wrap the imports of Python sources\n\n"
    ++ "Usage: sortimports [OPTIONS] [PATHS]...\n\n"
    ++ "Arguments:\n"
    ++ "  [PATHS]...  Files or directories to process (standard input when omitted)\n\n"
    ++ "Options:\n"
    ++ "  -c, --config <CONFIG>          Configuration file\n"
    ++ "  -f, --format <FORMAT>          Output format: text, json, yaml or summary\n"
    ++ "  -o, --output <OUTPUT>          Output file\n"
    ++ "      --squash                   Merge statements that import from one module\n"
    ++ "      --no-squash                Keep one group per statement\n"
    ++ "      --disable-wrapping         Print every group on a single line\n"
    ++ "      --wrap-after <N>           Wrap groups with more names than this\n"
    ++ "      --per-wrap <N>             Names per continuation line\n"
    ++ "      --wrap-after-col <COLUMN>  Also wrap lines longer than this (0 = off)\n"
    ++ "      --max-line-length <BYTES>  Longest accepted input line in bytes\n"
    ++ "      --known <LIBRARY>          Library reported as known (repeatable)\n"
    ++ "      --ignore <IGNORE>          Glob of paths to ignore (repeatable)\n"
    ++ "      --ignore-file <FILE>       Ignore file (defaults to .gitignore)\n"
    ++ "      --keep-going               Report failing files and go on\n"
    ++ "  -v, --verbose...               Tell more of the work\n"
    ++ "  -h, --help                     Print help\n"
    ++ "  -V, --version                  Print version\n"

/-- The outcome of arguments that ask for no run. -/
def halted (t : FileTree) : Halt → Outcome
  | .help => { status := 0, output := helpText, tree := t }
  | .version => { status := 0, output := versionText, tree := t }
  | .refused fault => { status := 2, errors := "error: " ++ fault.message ++ "\n", tree := t }

/-- The outcome of a command line, unless the run that it asks for panics. -/
def execute (p : Setup) (t : FileTree) (input : List UInt8) (m : Metadata)
    (texts : List RawText) : Option Outcome :=
  match Arguments.parse texts with
  | .error halt => some (halted t halt)
  | .ok a => run p t input m a

end Command

end ImportTidy
