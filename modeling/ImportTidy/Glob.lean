import ImportTidy.Path

/-!
# Globs

A glob is a list of pieces, and a path matches it if the pieces cover the bytes of the
path one after the other.

```text
c            the character itself
?            any byte
*            any bytes
[a-z] [!a]   a byte of the class, or none of it
**/          nothing or leading directories, at the start of a glob
/**/         a slash, or directories between two slashes
/**          everything below a directory
{a,b}        one of the alternatives
```

In a *separated* glob `?` and `*` match no slash.  A glob that is `**` alone matches
every path.

Matching goes by bytes, so `?` matches a part of a character outside ASCII, and a
class holds the bytes of its characters.

`Piece.rests` gives the ends that are left of a path when a piece has covered a
start of it.  An alternative that has no pieces is left out of its group.

A path that ends in the component `..` has no file name.  A glob that is decided by
the file name alone does not match it (`Glob.isDecidedByName`).
-/

namespace ImportTidy

/-- A part of a glob. -/
inductive Glob.Piece where
  /-- The character. -/
  | literal (c : Char)
  /-- Any byte. -/
  | anyByte
  /-- Any bytes. -/
  | anyBytes
  /-- Nothing, or directories at the start. -/
  | leading
  /-- A slash, or directories between two. -/
  | between
  /-- A slash and everything behind it. -/
  | inside
  /-- A byte of the ranges, or a byte of none of them. -/
  | oneOf (negated : Bool) (ranges : List (Char × Char))
  /-- One of the alternatives. -/
  | alternatives (branches : List (List Glob.Piece))
deriving Repr, Inhabited

/-- A glob. -/
structure Glob where
  /-- Its pieces. -/
  pieces : List Glob.Piece
  /-- `?` and `*` match no slash. -/
  separated : Bool := false
deriving Repr, Inhabited

namespace Glob

open ImportTidy.Path (slash dot)

/-! ## Bytes of a class -/

/-- The bytes of a character. -/
def bytesOf (c : Char) : List UInt8 := Utf8.encode (String.singleton c)

/-- The byte is one of a range.  Between two characters lie the bytes from the last byte
of the one to the first byte of the other. -/
def inRange (b : UInt8) (range : Char × Char) : Bool :=
  let low := bytesOf range.1
  let high := bytesOf range.2
  if range.1 = range.2 then low.contains b
  else
    low.dropLast.contains b || (high.drop 1).contains b
      || (low.getLast?.any (· ≤ b) && high.head?.any (b ≤ ·))

/-! ## Ends of a path -/

/-- What is left behind these bytes. -/
def strip : List UInt8 → List UInt8 → Option (List UInt8)
  | [], input => some input
  | _, [] => none
  | b :: bs, c :: cs => if b = c then strip bs cs else none

/-- What is left behind one byte of the kind. -/
def stripOne (p : UInt8 → Bool) : List UInt8 → Option (List UInt8)
  | b :: bs => if p b then some bs else none
  | [] => none

/-- What is left behind any number of bytes of the kind. -/
def runs (p : UInt8 → Bool) : List UInt8 → List (List UInt8)
  | [] => [[]]
  | b :: bs => (b :: bs) :: if p b then runs p bs else []

/-- What is left behind the slashes of a path. -/
def behindSlashes : List UInt8 → List (List UInt8)
  | [] => []
  | b :: bs => if b = slash then bs :: behindSlashes bs else behindSlashes bs

/-- The kind of byte that `?` and `*` match. -/
def isWild (separated : Bool) (b : UInt8) : Bool := !(separated && b = slash)

/-! ## Matching -/

mutual

/-- The pieces cover nothing. -/
def isVoid : Piece → Bool
  | .alternatives branches => branchesAreVoid branches
  | _ => false

/-- All of these pieces cover nothing. -/
def allVoid : List Piece → Bool
  | [] => true
  | p :: ps => isVoid p && allVoid ps

/-- All of these alternatives cover nothing. -/
def branchesAreVoid : List (List Piece) → Bool
  | [] => true
  | b :: bs => allVoid b && branchesAreVoid bs

end

mutual

/-- The ends that are left of these ends behind a piece. -/
def Piece.rests (separated : Bool) (ends : List (List UInt8)) : Piece → List (List UInt8)
  | .literal c => ends.filterMap (strip (bytesOf c))
  | .anyByte => ends.filterMap (stripOne (isWild separated))
  | .anyBytes => (ends.flatMap (runs (isWild separated))).eraseDups
  | .leading => (ends ++ ends.flatMap behindSlashes).eraseDups
  | .between =>
      let behind := ends.filterMap (strip [slash])
      (behind ++ behind.flatMap behindSlashes).eraseDups
  | .inside => ((ends.filterMap (strip [slash])).flatMap (runs fun _ => true)).eraseDups
  | .oneOf negated ranges =>
      ends.filterMap (stripOne fun b => ranges.any (inRange b) != negated)
  | .alternatives branches =>
      if branchesAreVoid branches then ends
      else (branchRests separated ends branches).eraseDups

/-- The ends that are left behind pieces. -/
def restsOf (separated : Bool) (ends : List (List UInt8)) : List Piece → List (List UInt8)
  | [] => ends
  | p :: ps => restsOf separated (p.rests separated ends) ps

/-- The ends that are left behind one of the alternatives. -/
def branchRests (separated : Bool) (ends : List (List UInt8)) :
    List (List Piece) → List (List UInt8)
  | [] => []
  | b :: bs =>
      (if allVoid b then [] else restsOf separated ends b) ++ branchRests separated ends bs

end

/-- The glob is `**` alone. -/
def isEverything (g : Glob) : Bool :=
  match g.pieces with
  | [.leading] => true
  | _ => false

/-- The pieces cover the bytes. -/
def covers (g : Glob) (bytes : List UInt8) : Bool :=
  g.isEverything || (restsOf g.separated [bytes] g.pieces).contains []

/-! ## Paths without a file name -/

/-- The path ends in the component `..`. -/
def endsAbove (bytes : List UInt8) : Bool :=
  bytes.reverse.takeWhile (· ≠ slash) = [dot, dot]

/-- The piece is a character. -/
def Piece.isLiteral : Piece → Bool
  | .literal _ => true
  | _ => false

/-- The piece is this character. -/
def Piece.isChar (c : Char) : Piece → Bool
  | .literal d => c = d
  | _ => false

/-- The pieces behind directories at the start. -/
def behindLeading : List Piece → List Piece
  | .leading :: ps => ps
  | ps => ps

/-- The glob is decided by the file name, so that no path without one matches it.

* `**/` with a file name behind it is decided by the name.
* So is a `*` with a dot behind it, where something may match the directories before it.
* So is any other glob that ends in a dot, unless it is no more than the end of a path:
  characters alone, behind `**/` or a `*` that matches slashes or nothing.

Every other glob is decided by the whole path. -/
def isDecidedByName (g : Glob) : Bool :=
  let tail := behindLeading g.pieces
  let isName := tail.length < g.pieces.length && !tail.isEmpty && tail.all Piece.isLiteral
    && !tail.any (Piece.isChar '/')
  let isDotBehindStar := match tail with
    | [.anyBytes, .literal '.'] => !g.separated || tail.length < g.pieces.length
    | _ => false
  let isEnd := match tail with
    | .anyBytes :: ps => !g.separated && ps.all Piece.isLiteral
    | ps => ps.all Piece.isLiteral
  isName || isDotBehindStar || (g.pieces.getLast?.any (Piece.isChar '.') && !isEnd)

/-- The path matches. -/
def isMatch (g : Glob) (path : Path) : Bool :=
  g.covers path.bytes && !(endsAbove path.bytes && g.isDecidedByName)

end Glob

end ImportTidy
