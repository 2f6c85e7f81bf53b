import ImportTidy.Text.RawText

/-!
# Paths

A path is a sequence of bytes.  Its *pieces* are what stands between slashes.  A piece
that is empty, and a piece `.` behind another one, says nothing.  All other pieces are
the components of the path, and a path that starts with a slash or with the piece `.`
has this as a component too.

So a path has a *lead*, which is a slash, the piece `.` or nothing, and pieces behind
it.  Two paths with the same components are the same place, though they may have
different bytes.

The operations keep the bytes of what they keep: `Path.within?` of `p//build//x` in
`p/` is `build//x`.  Only silent pieces at the ends of a result go away.
-/

namespace ImportTidy

/-- A path. -/
abbrev Path := RawText

namespace Path

/-! ## Pieces -/

/-- What a path starts with. -/
inductive Lead where
  /-- Nothing in front of the pieces. -/
  | relative
  /-- A slash. -/
  | root
  /-- The piece `.`. -/
  | here
deriving DecidableEq, Repr

/-- The byte of a slash. -/
def slash : UInt8 := 0x2F

/-- The byte of a dot. -/
def dot : UInt8 := 0x2E

/-- What stands between slashes. -/
def split : List UInt8 → List RawText
  | [] => [⟨[]⟩]
  | b :: bs =>
      match split bs with
      | [] => []
      | piece :: pieces =>
          if b = slash then ⟨[]⟩ :: piece :: pieces else ⟨b :: piece.bytes⟩ :: pieces

/-- Pieces with a slash between any two. -/
def join (pieces : List RawText) : RawText := ⟨[slash].intercalate (pieces.map RawText.bytes)⟩

/-- The lead of a path. -/
def lead (p : Path) : Lead :=
  match split p.bytes with
  | ⟨[]⟩ :: _ :: _ => .root
  | first :: _ => if first = "." then .here else .relative
  | [] => .relative

/-- The pieces behind the lead. -/
def pieces (p : Path) : List RawText :=
  match p.lead with
  | .relative => split p.bytes
  | _ => (split p.bytes).drop 1

/-- The path of a lead and pieces. -/
def ofPieces : Lead → List RawText → Path
  | .relative, ps => join ps
  | .root, ps => "/" ++ join ps
  | .here, [] => "."
  | .here, ps => "./" ++ join ps

/-- The piece says nothing. -/
def isSilent (piece : RawText) : Bool := piece = "" || piece = "."

/-- The pieces without the silent ones in front. -/
def trimStart (ps : List RawText) : List RawText := ps.dropWhile isSilent

/-- The pieces without the silent ones at the end. -/
def trimEnd (ps : List RawText) : List RawText := (ps.reverse.dropWhile isSilent).reverse

/-! ## Components -/

/-- A component of a path. -/
inductive Component where
  /-- The root of the file tree. -/
  | root
  /-- The directory itself. -/
  | here
  /-- A name of a directory, or `..` for the one above. -/
  | name (text : RawText)
deriving DecidableEq, Repr

/-- The component of a lead. -/
def Lead.component? : Lead → Option Component
  | .relative => none
  | .root => some .root
  | .here => some .here

/-- The pieces that are components. -/
def names (p : Path) : List RawText := p.pieces.filter fun piece => !isSilent piece

/-- The components of a path. -/
def components (p : Path) : List Component := p.lead.component?.toList ++ p.names.map .name

/-- The path starts at the root. -/
def isAbsolute (p : Path) : Bool := p.lead = .root

/-! ## Operations -/

/-- The pieces behind the first `n` components among them. -/
def dropNames : Nat → List RawText → List RawText
  | 0, ps => ps
  | _, [] => []
  | n + 1, p :: ps => if isSilent p then dropNames (n + 1) ps else dropNames n ps

/-- The path below a directory whose components it starts with.  Below a directory
without components the path is itself. -/
def within? (p directory : Path) : Option Path :=
  if directory.components.isEmpty then some (ofPieces p.lead (trimEnd p.pieces))
  else if directory.components.isPrefixOf p.components then
    some (join (trimEnd (trimStart (dropNames directory.names.length p.pieces))))
  else none

/-- The path without its last component.  A path without components and the root have
none. -/
def parent? (p : Path) : Option Path :=
  match (trimEnd p.pieces).reverse with
  | _ :: front => some (ofPieces p.lead (trimEnd front.reverse))
  | [] => if p.lead = .here then some "" else none

/-- The path of an entry of a directory. -/
def entry (directory : Path) (name : RawText) : Path :=
  match directory.bytes.getLast? with
  | none => name
  | some b => if b = slash then directory ++ name else directory ++ "/" ++ name

/-- The last component, if it is a name and not `..`. -/
def fileName? (p : Path) : Option RawText := p.names.getLast?.filter fun name => name ≠ ".."

/-- What stands behind the last dot of the file's name.  A dot at the start of the name
does not count. -/
def extension? (p : Path) : Option RawText :=
  p.fileName?.bind fun name =>
    let reversed := name.bytes.reverse
    let behind := reversed.takeWhile (· ≠ dot)
    match reversed.dropWhile (· ≠ dot) with
    | _ :: _ :: _ => some ⟨behind.reverse⟩
    | _ => none

end Path

end ImportTidy
