import ImportTidy.Command
import ImportTidy.Instant
import Std.Time.DateTime.Timestamp

/-!
# The program

The program takes a picture of the part of the file system that a run can ask about, lets
`Command` say what the run does, and does it.

The picture holds what the paths of the arguments and of the configuration lead to, with
everything below the roots.  A link in it leads to the real path of its target.  Of the
files below a root it holds the bytes of those alone whose extension a scan reads.

Names come from the system as texts here, and go to it as texts.
-/

namespace ImportTidy.Program

/-! ## The picture of the file system -/

/-- The entry at names from the root. -/
def entryAt (names : List RawText) : IO.FS.DirEntry :=
  { root := ("/" ++ Path.join names.dropLast : RawText).shown
    fileName := (names.getLast?.getD "").shown }

/-- Puts what stands at names into the picture.  A directory comes with its entries if
`deep` says so, and then with the bytes of the wanted files only. -/
partial def addEntry (wanted : Path → Bool) (deep : Bool) (root : Node)
    (names : List RawText) : IO Node := do
  let entry := entryAt names
  match ← entry.path.symlinkMetadata.toBaseIO with
  | .error _ => return root
  | .ok data =>
      match data.type with
      | .symlink =>
          match ← (IO.FS.realPath entry.path).toBaseIO with
          | .error _ => return Node.put (.link "/\x00") names root
          | .ok target =>
              let linked := Node.put (.link target.toString) names root
              addEntry wanted deep linked (Path.names target.toString)
      | .dir =>
          let mut found :=
            if (root.get? names).isSome then root else Node.put (.directory []) names root
          if deep then
            let children := (← entry.path.readDir.toBaseIO).toOption.getD #[]
            for child in children do
              let path := names ++ [.ofText child.fileName]
              let type := (← child.path.symlinkMetadata.toBaseIO).toOption.map (·.type)
              if type == some .file && !wanted child.fileName then
                found := Node.put (.file []) path found
              else found ← addEntry wanted (type == some .dir) found path
          return found
      | _ =>
          match ← (IO.FS.readBinFile entry.path).toBaseIO with
          | .error _ => return root
          | .ok bytes => return Node.put (.file bytes.toList) names root

/-- Puts what the steps of a path lead to into the picture, from the directory at real
names. -/
def addSteps (wanted : Path → Bool) (deep : Bool) (root : Node) (names : List RawText) :
    List RawText → IO Node
  | [] => addEntry wanted deep root names
  | step :: steps => do
      if step = "" || step = "." then addSteps wanted deep root names steps
      else if step = ".." then addSteps wanted deep root names.dropLast steps
      else
        let next := names ++ [step]
        let root ← addEntry wanted (deep && steps.isEmpty) root next
        match root.get? next with
        | some (.link target) =>
            if steps.isEmpty then return root
            else addSteps wanted deep root (Path.names target) steps
        | _ => if steps.isEmpty then return root else addSteps wanted deep root next steps

/-- Puts what a path leads to into the picture. -/
def addPath (wanted : Path → Bool) (deep : Bool) (t : FileTree) (p : Path) : IO FileTree := do
  let start := if p.isAbsolute then [] else t.working
  return { t with root := ← addSteps wanted deep t.root start (FileTree.steps p) }

/-- The file may be read by a scan of these settings. -/
def isWanted (s : ScanSettings) (p : Path) : Bool :=
  (Path.extension? p).any fun extension =>
    (s.extensions.map FileFilter.normalExtension).contains (LetterCase.lower extension.shown)

/-- Sums that do not fit into a word end the program, and no more is told of a malformed
configuration than that it is one. -/
def setup : Command.Setup := { build := .checked, explain := fun _ => "TOML parse error" }

/-- The picture for a run. -/
def picture (a : Arguments) : IO FileTree := do
  let working := Path.names (← IO.currentDir).toString
  let mut t : FileTree := { root := Node.put (.directory []) working (.directory []), working }
  for path in a.config.toList ++ [.ofText ConfigFile.fileName] do
    t ← addPath (fun _ => true) false t path
  let file := (ConfigFile.discover setup.explain t a.config t.workingPath).toOption.join
  let settings := a.scanSettings file
  for path in settings.ignoreFile.toList ++ a.output.toList do
    t ← addPath (fun _ => true) false t path
  for path in settings.roots do
    t ← addPath (isWanted settings) true t path
    t ← addPath (fun _ => true) false t (Path.entry path ".gitignore")
  return t

/-! ## Running -/

/-- The bytes of a stream up to its end. -/
partial def readAll (stream : IO.FS.Stream) (bytes : ByteArray) : IO ByteArray := do
  let more ← stream.read 65536
  if more.isEmpty then return bytes else readAll stream (bytes ++ more)

/-- Puts out what a run says, and ends with its status. -/
def putOut (o : Outcome) : IO UInt32 := do
  (← IO.getStdout).putStr o.output
  (← IO.getStderr).putStr o.errors
  return UInt32.ofNat o.status

/-- Does what a run came to. -/
def perform (o : Outcome) : IO UInt32 := do
  match o.saved with
  | none => putOut o
  | some (path, text) =>
      match ← (IO.FS.writeFile path.shown text).toBaseIO with
      | .ok _ => putOut o
      | .error e =>
          (← IO.getStderr).putStr ("cannot write " ++ path.shown ++ ": " ++ e.toString ++ "\n")
          return 1

/-- Runs what the arguments ask for. -/
def runWith (a : Arguments) : IO UInt32 := do
  let start ← IO.monoMsNow
  let now ← Std.Time.Timestamp.now
  let t ← picture a
  let input ← if a.paths.isEmpty then readAll (← IO.getStdin) .empty else pure .empty
  let instant : Instant := ⟨now.toNanosecondsSinceUnixEpoch.val.toNat⟩
  match Command.report setup t input.toList { timestamp := instant.text } a with
  | none =>
      (← IO.getStderr).putStr "attempt to add with overflow\n"
      return 101
  | some (.error fault) => perform (Command.settle t a (.error fault))
  | some (.ok r) =>
      let duration := (← IO.monoMsNow) - start
      perform (Command.settle t a (.ok { r with metadata := { r.metadata with duration } }))

end ImportTidy.Program

/-- Runs the command line. -/
def main (arguments : List String) : IO UInt32 := do
  match ImportTidy.Arguments.parse (arguments.map ImportTidy.RawText.ofText) with
  | .error halt => ImportTidy.Program.putOut (ImportTidy.Command.halted default halt)
  | .ok a => ImportTidy.Program.runWith a
