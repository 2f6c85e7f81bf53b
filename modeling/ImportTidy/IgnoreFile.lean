import ImportTidy.Feed
import ImportTidy.FileTree
import ImportTidy.Glob.Parse
import ImportTidy.Text.Whitespace

/-!
# Ignore files

A line of an ignore file is a glob of paths that are passed over.

* A line that starts with `#` says nothing, and neither does an empty one.  White space
  at the end of a line is left out, unless a backslash stands before the last blank.
* `!` in front turns the line round: the paths that it matches are kept.  A backslash
  before `!` or `#` takes that character as it is.
* A slash at the end lets the line match directories only.
* A line with a slash elsewhere matches the whole path below the directory of the file.
  A line without one matches at any depth.
* A line that ends in `/**` matches what lies in a directory, but not the directory.

The last line that matches a path decides.

Marks of byte order at the start of the file are passed over.  Each faulty line is told,
and a line that is no text ends the reading.
-/

namespace ImportTidy

/-- A line of an ignore file that says something. -/
structure IgnoreRule where
  /-- The glob. -/
  glob : Glob
  /-- The paths that match are kept. -/
  keeps : Bool := false
  /-- Only directories match. -/
  directoriesOnly : Bool := false
deriving Repr

/-- What is wrong with a line. -/
inductive IgnoreLineFault where
  /-- The line holds this text, which is no glob. -/
  | badGlob (text : String) (fault : GlobFault)
  /-- The line could not be read. -/
  | unread (cause : IoError)
deriving DecidableEq, Repr

/-- What is wrong with an ignore file. -/
inductive IgnoreFault where
  /-- The file could not be opened. -/
  | unopened (path : Path) (cause : IoError)
  /-- Lines of the file are faulty, each with its number. -/
  | badLines (path : Path) (lines : List (Nat × IgnoreLineFault))
deriving DecidableEq, Repr

/-- The text of a faulty line. -/
def IgnoreLineFault.message : IgnoreLineFault → String
  | .badGlob text fault => fault.report text
  | .unread cause => cause.message

/-- The text of a faulty ignore file, one line for each of its faults. -/
def IgnoreFault.message : IgnoreFault → String
  | .unopened path cause => path.shown ++ ": " ++ cause.message
  | .badLines path lines =>
      "\n".intercalate
        (lines.map fun l => path.shown ++ ": line " ++ toString l.1 ++ ": " ++ l.2.message)

namespace IgnoreRule

/-! ## Reading a line -/

/-- The signs in front of a line: whether it keeps paths, whether it starts at the
directory of the file, and what stands behind them. -/
def cutSigns : List Char → Bool × Bool × List Char
  | '\\' :: '!' :: cs => (false, false, '!' :: cs)
  | '\\' :: '#' :: cs => (false, false, '#' :: cs)
  | '!' :: '/' :: cs => (true, true, cs)
  | '!' :: cs => (true, false, cs)
  | '/' :: cs => (false, true, cs)
  | cs => (false, false, cs)

/-- Whether a line ends in a slash, and the line without it.  A backslash before that
slash goes with it. -/
def cutSlash (cs : List Char) : Bool × List Char :=
  match cs.reverse with
  | '/' :: '\\' :: front => (true, front.reverse)
  | '/' :: front => (true, front.reverse)
  | _ => (false, cs)

/-- The glob of a line.  A line without a slash matches at any depth. -/
def globText (anchored : Bool) (cs : List Char) : String :=
  let text := String.ofList cs
  let deep := if anchored || cs.contains '/' || text = "**" then text else "**/" ++ text
  match deep.toList.reverse with
  | '*' :: '*' :: '/' :: _ => deep ++ "/*"
  | _ => deep

/-- The rule of a line that is not empty and is no comment. -/
def ofPattern (line : String) : Except IgnoreLineFault IgnoreRule :=
  let (keeps, anchored, behind) := cutSigns line.toList
  let (directoriesOnly, cs) := cutSlash behind
  match Glob.parseSeparated (globText anchored cs) with
  | .ok glob => .ok { glob := glob, keeps := keeps, directoriesOnly := directoriesOnly }
  | .error fault => .error (.badGlob line fault)

/-- A line without the white space at its end, which a backslash before the last blank
keeps. -/
def trim (line : String) : String :=
  match line.toList.reverse with
  | ' ' :: '\\' :: _ => line
  | _ => Whitespace.trimEnd line

/-- The rule of a line, if it says something. -/
def ofLine (line : String) : Except IgnoreLineFault (Option IgnoreRule) :=
  if line.toList.head? = some '#' then .ok none
  else if trim line = "" then .ok none
  else (ofPattern (trim line)).map some

end IgnoreRule

/-! ## Reading a file -/

/-- The rules of an ignore file. -/
structure IgnoreFile where
  /-- The directory of the file. -/
  directory : Path
  /-- The rules in the order of their lines. -/
  rules : List IgnoreRule
deriving Repr

namespace IgnoreFile

/-- The lines of a byte sequence, each with its newline. -/
def byteLines : List UInt8 → List (List UInt8)
  | [] => []
  | b :: bs =>
      if b = newline then [b] :: byteLines bs
      else
        match byteLines bs with
        | [] => [[b]]
        | line :: lines => (b :: line) :: lines

/-- The text without the marks of byte order in front. -/
def dropMarks (text : String) : String :=
  String.ofList (text.toList.dropWhile (· = '\uFEFF'))

/-- The rules and the faults of the lines from this number on. -/
def readLines (number : Nat) : List (List UInt8) → List IgnoreRule × List (Nat × IgnoreLineFault)
  | [] => ([], [])
  | line :: lines =>
      match Utf8.decode (lineContent line) with
      | .error _ => ([], [(number, .unread .notText)])
      | .ok text =>
          let (rules, faults) := readLines (number + 1) lines
          match IgnoreRule.ofLine (if number = 1 then dropMarks text else text) with
          | .ok none => (rules, faults)
          | .ok (some rule) => (rule :: rules, faults)
          | .error fault => (rules, (number, fault) :: faults)

/-- The path of a directory without `./` in front. -/
def dropHere (p : Path) : Path :=
  match p.bytes with
  | b :: c :: bs => if b = Path.dot ∧ c = Path.slash then ⟨bs⟩ else p
  | _ => p

/-- The ignore file at a path, for the paths below a directory. -/
def load (t : FileTree) (directory path : Path) : Except IgnoreFault IgnoreFile :=
  match t.read path with
  | .error .isDirectory => .error (.badLines path [(1, .unread .isDirectory)])
  | .error cause => .error (.unopened path cause)
  | .ok bytes =>
      match readLines 1 (byteLines bytes) with
      | (rules, []) => .ok { directory := dropHere directory, rules := rules }
      | (_, faults) => .error (.badLines path faults)

/-! ## Matching -/

/-- What stands behind these bytes, if the path starts with them. -/
def behind? (start path : List UInt8) : Option (List UInt8) :=
  if start.isPrefixOf path then some (path.drop start.length) else none

/-- The path as its rules see it: without `./` in front, and without the directory of the
file.  A path without a slash is a name and keeps all of its bytes. -/
def viewOf (directory path : Path) : Path :=
  let named := dropHere path
  if directory.components = [.here] || !named.bytes.contains Path.slash then named
  else
    match behind? directory.bytes named.bytes with
    | none => named
    | some rest => ⟨(behind? [Path.slash] rest).getD rest⟩

/-- The rule decides about the path. -/
def decides (path : Path) (isDirectory : Bool) (rule : IgnoreRule) : Bool :=
  rule.glob.isMatch path && (isDirectory || !rule.directoriesOnly)

/-- The path is passed over. -/
def ignores (f : IgnoreFile) (path : Path) (isDirectory : Bool) : Bool :=
  (f.rules.reverse.find? (decides (viewOf f.directory path) isDirectory)).any (!·.keeps)

end IgnoreFile

end ImportTidy
