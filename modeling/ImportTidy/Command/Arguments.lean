import ImportTidy.ConfigFile
import ImportTidy.Report.Format

/-!
# Arguments of the command line

The arguments are options and paths, in any order.  Behind `--` all are paths.

* An option has a long name, and some have a short one of one character.  Short ones may
  stand together behind one `-`.
* A value stands behind the option as the next argument, or behind `=`.  Behind a short
  name the `=` may be left out.  A value that is the next argument starts with no `-`,
  unless it is `-` alone.
* An option stands once, but for those that collect values.  `--squash` and `--no-squash`
  take back one another.

Arguments are read from left to right, and the first that is wrong, or that asks for the
help or the version, ends the reading.

An argument is a sequence of bytes.  Where it names a path any bytes will do, and all
other values are texts.
-/

namespace ImportTidy

/-- What the command line asks for. -/
structure Arguments where
  /-- The files and directories. -/
  paths : List Path := []
  /-- The configuration file. -/
  config : Option Path := none
  /-- The format of the report. -/
  format : Option OutputFormat := none
  /-- The file that the report goes to. -/
  output : Option Path := none
  /-- Merge statements of one source. -/
  squash : Bool := false
  /-- Do not merge statements of one source. -/
  noSquash : Bool := false
  /-- Never wrap. -/
  disableWrapping : Bool := false
  /-- The most names of a statement on one line. -/
  wrapAfter : Option Nat := none
  /-- The most names of the other lines of a wrapped statement. -/
  perWrap : Option Nat := none
  /-- The last column. -/
  wrapAfterColumn : Option Nat := none
  /-- The most bytes of an input line. -/
  maxLineLength : Option Nat := none
  /-- Further known libraries. -/
  known : List String := []
  /-- Further globs of ignored paths. -/
  ignore : List String := []
  /-- The ignore file. -/
  ignoreFile : Option Path := none
  /-- Report a file that fails and go on. -/
  keepGoing : Bool := false
  /-- How much is told of the work. -/
  verbosity : Nat := 0
deriving DecidableEq, Repr

/-- What is wrong with the arguments. -/
inductive ArgumentFault where
  /-- There is no such option. -/
  | unknownOption (name : String)
  /-- The option has no value. -/
  | missingValue (name : String)
  /-- The option takes no value. -/
  | needlessValue (name : String)
  /-- The option, or a path, does not take this value. -/
  | badValue (name value : String)
  /-- The option stands twice. -/
  | repeated (name : String)
deriving DecidableEq, Repr

/-- The text of a fault. -/
def ArgumentFault.message : ArgumentFault → String
  | .unknownOption name => "unexpected argument '" ++ name ++ "' found"
  | .missingValue name => "a value is required for '" ++ name ++ "' but none was supplied"
  | .needlessValue name => "unexpected value for '" ++ name ++ "' found"
  | .badValue name value => "invalid value '" ++ value ++ "' for '" ++ name ++ "'"
  | .repeated name => "the argument '" ++ name ++ "' cannot be used multiple times"

/-- Why no run is asked for. -/
inductive Halt where
  /-- The help is asked for. -/
  | help
  /-- The version is asked for. -/
  | version
  /-- The arguments are wrong. -/
  | refused (fault : ArgumentFault)
deriving DecidableEq, Repr

/-! ## Options -/

/-- The options that take no value. -/
inductive Switch where
  /-- Merge statements of one source. -/
  | squash
  /-- Do not merge them. -/
  | noSquash
  /-- Never wrap. -/
  | disableWrapping
  /-- Go on behind a file that fails. -/
  | keepGoing
  /-- Tell more of the work. -/
  | verbose
  /-- Show the help. -/
  | help
  /-- Show the version. -/
  | version
deriving DecidableEq, Repr

/-- The options that take a value. -/
inductive Setting where
  /-- The configuration file. -/
  | config
  /-- The format of the report. -/
  | format
  /-- The file that the report goes to. -/
  | output
  /-- The most names of a statement on one line. -/
  | wrapAfter
  /-- The most names of the other lines. -/
  | perWrap
  /-- The last column. -/
  | wrapAfterColumn
  /-- The most bytes of an input line. -/
  | maxLineLength
  /-- A known library. -/
  | known
  /-- A glob of ignored paths. -/
  | ignore
  /-- The ignore file. -/
  | ignoreFile
deriving DecidableEq, Repr

/-- The long name of a switch. -/
def Switch.name : Switch → String
  | .squash => "--squash"
  | .noSquash => "--no-squash"
  | .disableWrapping => "--disable-wrapping"
  | .keepGoing => "--keep-going"
  | .verbose => "--verbose"
  | .help => "--help"
  | .version => "--version"

/-- The long name of a setting. -/
def Setting.name : Setting → String
  | .config => "--config"
  | .format => "--format"
  | .output => "--output"
  | .wrapAfter => "--wrap-after"
  | .perWrap => "--per-wrap"
  | .wrapAfterColumn => "--wrap-after-col"
  | .maxLineLength => "--max-line-length"
  | .known => "--known"
  | .ignore => "--ignore"
  | .ignoreFile => "--ignore-file"

/-- An option. -/
inductive CommandOption where
  /-- One that takes no value. -/
  | switch (s : Switch)
  /-- One that takes a value. -/
  | setting (s : Setting)
deriving DecidableEq, Repr

namespace CommandOption

/-- All options. -/
def all : List CommandOption :=
  ([.squash, .noSquash, .disableWrapping, .keepGoing, .verbose, .help, .version].map .switch)
    ++ ([.config, .format, .output, .wrapAfter, .perWrap, .wrapAfterColumn, .maxLineLength,
      .known, .ignore, .ignoreFile].map .setting)

/-- The long name of an option. -/
def name : CommandOption → String
  | .switch s => s.name
  | .setting s => s.name

/-- The option of a long name. -/
def ofName? (text : String) : Option CommandOption := all.find? (·.name = text)

/-- The option of a short name. -/
def ofChar? : Char → Option CommandOption
  | 'c' => some (.setting .config)
  | 'f' => some (.setting .format)
  | 'o' => some (.setting .output)
  | 'v' => some (.switch .verbose)
  | 'h' => some (.switch .help)
  | 'V' => some (.switch .version)
  | _ => none

/-- The option of a short name that is this byte. -/
def ofByte? (b : UInt8) : Option CommandOption := ofChar? (Char.ofNat b.toNat)

end CommandOption

namespace Arguments

/-! ## Applying options -/

/-- The arguments with a switch that is on, where it was off before. -/
def turnOn (s : Switch) (isOn : Bool) (a : Arguments) : Except Halt Arguments :=
  if isOn then .error (.refused (.repeated s.name)) else .ok a

/-- The arguments with a switch. -/
def applySwitch (a : Arguments) (s : Switch) : Except Halt Arguments :=
  match s with
  | .squash => turnOn s a.squash { a with squash := true, noSquash := false }
  | .noSquash => turnOn s a.noSquash { a with noSquash := true, squash := false }
  | .disableWrapping => turnOn s a.disableWrapping { a with disableWrapping := true }
  | .keepGoing => turnOn s a.keepGoing { a with keepGoing := true }
  | .verbose => .ok { a with verbosity := a.verbosity + 1 }
  | .help => .error .help
  | .version => .error .version

/-- The number that a value is: digits, behind a plus sign or none, that a 64-bit word
holds. -/
def wordOf? (value : String) : Option Nat :=
  let digits := match value.toList with
    | '+' :: cs => cs
    | cs => cs
  if digits.isEmpty || !digits.all Char.isDigit then none
  else
    let n := Json.numberOf digits
    if n < UInt64.size then some n else none

/-- The path that a value is.  It is not empty. -/
def pathOf? (value : RawText) : Option Path := if value = "" then none else some value

/-- The value of a setting that stands once. -/
def once (s : Setting) (value : RawText) (before : Option α) (read : RawText → Option α) :
    Except Halt α :=
  match read value, before with
  | none, _ => .error (.refused (.badValue s.name value.shown))
  | some _, some _ => .error (.refused (.repeated s.name))
  | some v, none => .ok v

/-- The value of a setting that stands once and is a text. -/
def textOnce (s : Setting) (value : RawText) (before : Option α) (read : String → Option α) :
    Except Halt α :=
  once s value before fun value => value.text?.bind read

/-- The texts of a setting that collects them. -/
def collect (s : Setting) (value : RawText) (before : List String) :
    Except Halt (List String) :=
  match value.text? with
  | none => .error (.refused (.badValue s.name value.shown))
  | some text => .ok (before ++ [text])

/-- The arguments with a setting. -/
def applySetting (a : Arguments) (s : Setting) (value : RawText) : Except Halt Arguments :=
  match s with
  | .config => (once s value a.config pathOf?).map fun v => { a with config := some v }
  | .format =>
      (textOnce s value a.format OutputFormat.ofName?).map fun v => { a with format := some v }
  | .output => (once s value a.output pathOf?).map fun v => { a with output := some v }
  | .wrapAfter =>
      (textOnce s value a.wrapAfter wordOf?).map fun v => { a with wrapAfter := some v }
  | .perWrap => (textOnce s value a.perWrap wordOf?).map fun v => { a with perWrap := some v }
  | .wrapAfterColumn =>
      (textOnce s value a.wrapAfterColumn wordOf?).map fun v => { a with wrapAfterColumn := some v }
  | .maxLineLength =>
      (textOnce s value a.maxLineLength wordOf?).map fun v => { a with maxLineLength := some v }
  | .known => (collect s value a.known).map fun vs => { a with known := vs }
  | .ignore => (collect s value a.ignore).map fun vs => { a with ignore := vs }
  | .ignoreFile => (once s value a.ignoreFile pathOf?).map fun v => { a with ignoreFile := some v }

/-- The arguments with a path. -/
def applyPath (a : Arguments) (value : RawText) : Except Halt Arguments :=
  match pathOf? value with
  | none => .error (.refused (.badValue "[PATHS]..." value.shown))
  | some path => .ok { a with paths := a.paths ++ [path] }

/-! ## Reading -/

/-- The byte that options start with. -/
def dash : UInt8 := 0x2D

/-- The byte between an option and its value. -/
def equals : UInt8 := 0x3D

/-- The arguments after one of them was read.  A setting may wait for its value. -/
structure Progress where
  /-- The arguments so far. -/
  arguments : Arguments
  /-- The setting whose value is the next argument. -/
  awaiting : Option Setting := none

/-- The option of these bytes. -/
def optionOf? (name : RawText) : Option CommandOption := name.text?.bind CommandOption.ofName?

/-- Reads an argument that starts with `--`.  The name and the value are what stands
before and behind the first `=`. -/
def readLong (a : Arguments) (bytes : List UInt8) : Except Halt Progress :=
  let name : RawText := ⟨bytes.takeWhile (· ≠ equals)⟩
  match optionOf? name, bytes.dropWhile (· ≠ equals) with
  | none, _ => .error (.refused (.unknownOption name.shown))
  | some (.switch s), [] => (a.applySwitch s).map fun a => { arguments := a }
  | some (.switch s), _ => .error (.refused (.needlessValue s.name))
  | some (.setting s), [] => .ok { arguments := a, awaiting := some s }
  | some (.setting s), _ :: value => (a.applySetting s ⟨value⟩).map fun a => { arguments := a }

/-- The first character that is shown of bytes. -/
def firstShown (bytes : List UInt8) : String :=
  String.ofList ((Utf8.decodeLossy bytes).toList.take 1)

/-- Reads the short names behind a `-`. -/
def readShort (a : Arguments) : List UInt8 → Except Halt Progress
  | [] => .ok { arguments := a }
  | b :: bs =>
      match CommandOption.ofByte? b with
      | none => .error (.refused (.unknownOption ("-" ++ firstShown (b :: bs))))
      | some (.switch s) =>
          match a.applySwitch s with
          | .error halt => .error halt
          | .ok a => readShort a bs
      | some (.setting s) =>
          match bs with
          | [] => .ok { arguments := a, awaiting := some s }
          | c :: cs =>
              let value := if c = equals then cs else c :: cs
              (a.applySetting s ⟨value⟩).map fun a => { arguments := a }

/-- The argument is no option. -/
def isValue (text : RawText) : Bool :=
  match text.bytes with
  | b :: _ :: _ => b ≠ dash
  | _ => true

/-- Reads an argument that no setting awaits. -/
def readOne (a : Arguments) (text : RawText) : Except Halt Progress :=
  let asPath := (a.applyPath text).map fun a => { arguments := a }
  match text.bytes with
  | b :: c :: cs =>
      if b ≠ dash then asPath
      else if c = dash then readLong a text.bytes
      else readShort a (c :: cs)
  | _ => asPath

/-- Reads the arguments behind others. -/
def readFrom (p : Progress) : List RawText → Except Halt Arguments
  | [] =>
      match p.awaiting with
      | none => .ok p.arguments
      | some s => .error (.refused (.missingValue s.name))
  | text :: texts =>
      match p.awaiting with
      | some s =>
          if isValue text then
            match p.arguments.applySetting s text with
            | .error halt => .error halt
            | .ok a => readFrom { arguments := a } texts
          else .error (.refused (.missingValue s.name))
      | none =>
          if text = "--" then texts.foldlM applyPath p.arguments
          else
            match readOne p.arguments text with
            | .error halt => .error halt
            | .ok p => readFrom p texts

/-- What the arguments ask for. -/
def parse (texts : List RawText) : Except Halt Arguments := readFrom { arguments := {} } texts

/-! ## Settings -/

/-- The settings of a scan: the defaults, then what the configuration file sets, then what
the arguments set. -/
def scanSettings (a : Arguments) (file : Option ConfigFile) : ScanSettings :=
  let base : ScanSettings := { roots := a.paths }
  let s := file.elim base base.overlay
  { s with
    sort := {
      squash := (s.sort.squash || a.squash) && !a.noSquash
      wrap := {
        disabled := s.sort.wrap.disabled || a.disableWrapping
        first := a.wrapAfter.getD s.sort.wrap.first
        each := a.perWrap.getD s.sort.wrap.each
        column := a.wrapAfterColumn.getD s.sort.wrap.column }
      maxLineLength := (a.maxLineLength.map UInt64.ofNat).getD s.sort.maxLineLength
      knownLibraries := s.sort.knownLibraries ++ a.known }
    ignoredGlobs := s.ignoredGlobs ++ a.ignore
    ignoreFile := a.ignoreFile
    keepGoing := a.keepGoing }

end Arguments

end ImportTidy
