import ImportTidy.IoError
import ImportTidy.Path

/-!
# File trees

A file tree is a root directory with a working directory in it, at which relative
paths start.  A node is a file with its bytes, a directory with named entries, or a
symbolic link with the path that it stands for.

A lookup goes down piece by piece.

* A piece can be looked up in a directory only.
* The directory above the root is the root.
* A link is replaced by its path, which starts at the link's own directory.  At most
  `maxLinks` links are followed, so every lookup ends.
* A slash at the end of a path says that the path is a directory.

`FileTree.read` and the tests of what a path is follow every link.  `FileTree.find`
does not follow one that the whole path names.  `FileTree.write` makes a file where
the path leads to a free name of a directory, also through a link to that name.
-/

namespace ImportTidy

/-- A file, a directory or a link. -/
inductive Node where
  /-- A file with its bytes. -/
  | file (bytes : List UInt8)
  /-- A directory with its entries. -/
  | directory (entries : List (RawText × Node))
  /-- A symbolic link to a path. -/
  | link (target : Path)
deriving Repr, Inhabited

namespace Node

/-- The node is a directory. -/
def isDirectory : Node → Bool
  | .directory _ => true
  | _ => false

/-- The node is a file. -/
def isFile : Node → Bool
  | .file _ => true
  | _ => false

/-- The entries of a directory. -/
def entries : Node → List (RawText × Node)
  | .directory es => es
  | _ => []

/-- The entry of this name. -/
def entry? (n : Node) (name : RawText) : Option Node :=
  (n.entries.find? fun e => e.1 == name).map (·.2)

/-- The entries with this node under a name, in the place of the entry that has it. -/
def putEntry (name : RawText) (new : Node) : List (RawText × Node) → List (RawText × Node)
  | [] => [(name, new)]
  | e :: es => if e.1 = name then (name, new) :: es else e :: putEntry name new es

/-- The directory with a node at these names.  Directories that are missing on the
way are made. -/
def put (new : Node) : List RawText → Node → Node
  | [], _ => new
  | name :: names, n =>
      let child := (n.entry? name).getD (.directory [])
      .directory (putEntry name (put new names child) n.entries)

/-- The node at these names, no link followed. -/
def get? : List RawText → Node → Option Node
  | [], n => some n
  | name :: names, n => (n.entry? name).bind (get? names)

end Node

/-- A root directory and the names that lead to the working directory. -/
structure FileTree where
  /-- The root directory. -/
  root : Node
  /-- The names of the working directory. -/
  working : List RawText
deriving Repr, Inhabited

namespace FileTree

/-! ## Lookups -/

/-- The most links that a lookup follows. -/
def maxLinks : Nat := 40

/-- The most bytes of a name. -/
def maxName : Nat := 255

/-- The least number of bytes that is too many for a path. -/
def pathLimit : Nat := 4096

/-- The steps of a path: its pieces with all empty ones left out, but one at the end
for a slash there. -/
def steps (p : Path) : List RawText :=
  let named := (Path.split p.bytes).filter fun piece : RawText => piece ≠ ""
  if named ≠ [] ∧ p.bytes.getLast? = some Path.slash then named ++ [("" : RawText)] else named

/-- Where a lookup ends.  The names lead there from the root, and pass no link. -/
inductive Place where
  /-- At a node. -/
  | taken (names : List RawText) (node : Node)
  /-- At a name that its directory does not have. -/
  | free (names : List RawText)
deriving Repr

/-- How a lookup treats the end of its path. -/
structure Aim where
  /-- Follow a link there. -/
  followLast : Bool := true
  /-- A file is to be made there, so that a slash at the end is refused. -/
  forWriting : Bool := false

/-- The lookup of steps from a node.  `names` lead to the node from the root.  A link is
left to `jump`, with the steps that its path puts in front of the others. -/
def descend (root : Node) (aim : Aim)
    (jump : List RawText → Node → List RawText → Except IoError Place)
    (names : List RawText) (n : Node) : List RawText → Except IoError Place
  | [] => .ok (.taken names n)
  | step :: rest =>
      if !n.isDirectory then .error .notDirectory
      else if aim.forWriting && rest = [("" : RawText)] && step ≠ "." && step ≠ ".." then
        .error .isDirectory
      else if step = "" || step = "." then descend root aim jump names n rest
      else if step = ".." then
        descend root aim jump names.dropLast ((root.get? names.dropLast).getD root) rest
      else if step.bytes.length > maxName then .error .nameTooLong
      else
        match n.entry? step with
        | none => if rest = [] then .ok (.free (names ++ [step])) else .error .notFound
        | some (.link target) =>
            if rest = [] && !aim.followLast then .ok (.taken (names ++ [step]) (.link target))
            else if target = "" then .error .notFound
            else if Path.isAbsolute target then jump [] root (steps target ++ rest)
            else jump names n (steps target ++ rest)
        | some child => descend root aim jump (names ++ [step]) child rest

/-- The lookup of steps from a node, through no more links than these. -/
def walk (root : Node) (aim : Aim) :
    Nat → List RawText → Node → List RawText → Except IoError Place
  | 0 => descend root aim fun _ _ _ => .error .tooManyLinks
  | links + 1 => descend root aim (walk root aim links)

/-- The lookup of a path. -/
def lookup (t : FileTree) (aim : Aim) (p : Path) : Except IoError Place :=
  if p.bytes.contains 0 then .error .nulInName
  else if p = "" then .error .notFound
  else if p.bytes.length ≥ pathLimit then .error .nameTooLong
  else
    let start := if p.isAbsolute then [] else t.working
    walk t.root aim maxLinks start ((t.root.get? start).getD t.root) (steps p)

/-- The node that a path leads to. -/
def resolve (t : FileTree) (p : Path) : Except IoError Node :=
  match t.lookup {} p with
  | .ok (.taken _ n) => .ok n
  | .ok (.free _) => .error .notFound
  | .error e => .error e

/-- The node that a path names, which may be a link. -/
def find (t : FileTree) (p : Path) : Except IoError Node :=
  match t.lookup { followLast := false } p with
  | .ok (.taken _ n) => .ok n
  | .ok (.free _) => .error .notFound
  | .error e => .error e

/-- The path leads to something. -/
def holds (t : FileTree) (p : Path) : Bool := (t.resolve p).toOption.isSome

/-- The path leads to a directory. -/
def isDirectory (t : FileTree) (p : Path) : Bool := (t.resolve p).toOption.any Node.isDirectory

/-- The path leads to a file. -/
def isFile (t : FileTree) (p : Path) : Bool := (t.resolve p).toOption.any Node.isFile

/-! ## Reading and writing -/

/-- The bytes of the file that a path leads to. -/
def read (t : FileTree) (p : Path) : Except IoError (List UInt8) :=
  match t.resolve p with
  | .ok (.file bytes) => .ok bytes
  | .ok _ => .error .isDirectory
  | .error e => .error e

/-- The text of the file that a path leads to. -/
def readText (t : FileTree) (p : Path) : Except IoError String :=
  match t.read p with
  | .error e => .error e
  | .ok bytes =>
      match Utf8.decode bytes with
      | .ok text => .ok text
      | .error _ => .error .notText

/-- The tree with these bytes as the file that a path leads to. -/
def write (t : FileTree) (p : Path) (bytes : List UInt8) : Except IoError FileTree :=
  match t.lookup { forWriting := true } p with
  | .error e => .error e
  | .ok (.taken _ (.directory _)) => .error .isDirectory
  | .ok (.taken names _) => .ok { t with root := Node.put (.file bytes) names t.root }
  | .ok (.free names) => .ok { t with root := Node.put (.file bytes) names t.root }

end FileTree

end ImportTidy
