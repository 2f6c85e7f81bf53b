import ImportTidy.Glob

/-!
# Reading globs

A glob is read from a text, character by character.

* A backslash takes the character behind it as it is.
* `**` stands for directories only between slashes or the ends of the glob, or of an
  alternative.  Elsewhere it is two `*`.
* A bracket opens a class, which the next `]` ends.  Behind the bracket, or behind the
  `!` or `^` that negates the class, a `]` and a `-` are characters of it.  A `-` between
  two others makes a range, and behind a range it moves the end of that range.
* A brace opens alternatives, which commas separate.  They may stand in one another.

Where lenient reading is asked for, a bracket that nothing closes is a character, and
so are all brackets behind it.
-/

namespace ImportTidy

/-- Why a text is no glob. -/
inductive GlobFault where
  /-- A class is not closed. -/
  | unclosedClass
  /-- A range ends before it starts. -/
  | emptyRange (low high : Char)
  /-- A brace closes nothing. -/
  | unopenedAlternatives
  /-- A brace is not closed. -/
  | unclosedAlternatives
  /-- Nothing stands behind a backslash. -/
  | danglingEscape
deriving DecidableEq, Repr

/-- The text of a fault. -/
def GlobFault.message : GlobFault → String
  | .unclosedClass => "unclosed character class; missing ']'"
  | .emptyRange low high =>
      "invalid range; '" ++ String.singleton low ++ "' > '" ++ String.singleton high ++ "'"
  | .unopenedAlternatives =>
      "unopened alternate group; missing '\x7b' (maybe escape '\x7d' with '[\x7d]'?)"
  | .unclosedAlternatives =>
      "unclosed alternate group; missing '\x7d' (maybe escape '\x7b' with '[\x7b]'?)"
  | .danglingEscape => "dangling '\\'"

/-- What is said of a text that is no glob. -/
def GlobFault.report (text : String) (fault : GlobFault) : String :=
  "error parsing glob '" ++ text ++ "': " ++ fault.message

namespace Glob

/-! ## Classes -/

/-- A class that is read: its ranges, newest first, and whether the last character was a
`-` that can make a range. -/
structure ClassState where
  /-- The ranges, newest first. -/
  ranges : List (Char × Char)
  /-- The next character ends a range. -/
  pending : Bool := false

/-- The class with one more character. -/
def ClassState.step (s : ClassState) (c : Char) : Except GlobFault ClassState :=
  match s.pending, s.ranges with
  | true, (low, _) :: ranges =>
      if c < low then .error (.emptyRange low c) else .ok { ranges := (low, c) :: ranges }
  | _, ranges =>
      if c = '-' then .ok { s with pending := true } else .ok { ranges := (c, c) :: ranges }

/-- The ranges of a class.  A `-` at its end is a character. -/
def ClassState.finish (s : ClassState) : List (Char × Char) :=
  (if s.pending then ('-', '-') :: s.ranges else s.ranges).reverse

/-- The class of the characters between brackets. -/
def readClass : List Char → Except GlobFault (List (Char × Char))
  | [] => .ok []
  | c :: cs =>
      match cs.foldlM ClassState.step { ranges := [(c, c)] } with
      | .ok s => .ok s.finish
      | .error e => .error e

/-- The characters of a class up to the bracket that closes it, and those behind the
bracket, if there is one. -/
def cutClass : List Char → List Char × Option (List Char)
  | [] => ([], none)
  | c :: cs =>
      (c :: cs.takeWhile (· ≠ ']'),
        match cs.dropWhile (· ≠ ']') with
        | [] => none
        | _ :: rest => some rest)

/-- The sign of a class, and the characters behind the sign. -/
def cutSign : List Char → Bool × List Char
  | '!' :: cs => (true, cs)
  | '^' :: cs => (true, cs)
  | cs => (false, cs)

theorem length_cutSign (cs : List Char) : (cutSign cs).2.length ≤ cs.length := by
  unfold cutSign
  split <;> simp

theorem length_of_cutClass {cs rest : List Char} (h : (cutClass cs).2 = some rest) :
    rest.length ≤ cs.length := by
  cases cs with
  | nil => simp [cutClass] at h
  | cons c cs =>
    simp only [cutClass] at h
    have hd : (cs.dropWhile (· ≠ ']')).length ≤ cs.length := (List.dropWhile_suffix _).length_le
    split at h
    · simp at h
    · rename_i d rest' heq
      simp only [Option.some.injEq] at h
      subst h
      rw [heq] at hd
      simp only [List.length_cons] at hd ⊢
      omega

/-! ## Open alternatives -/

/-- A level of alternatives: those that are complete, and the pieces of the one at hand,
all newest first. -/
structure Level where
  /-- The complete ones. -/
  branches : List (List Piece) := []
  /-- The one at hand. -/
  pieces : List Piece := []

/-- The level at hand and those around it. -/
structure Levels where
  /-- The innermost one. -/
  top : Level := {}
  /-- The levels around it. -/
  outer : List Level := []

namespace Levels

/-- A brace is open. -/
def isNested (s : Levels) : Bool := !s.outer.isEmpty

/-- One more piece. -/
def push (s : Levels) (p : Piece) : Levels :=
  { s with top := { s.top with pieces := p :: s.top.pieces } }

/-- The last piece replaced. -/
def replace (s : Levels) (p : Piece) : Levels :=
  { s with top := { s.top with pieces := p :: s.top.pieces.drop 1 } }

/-- A new level. -/
def openGroup (s : Levels) : Levels := { top := {}, outer := s.top :: s.outer }

/-- The alternatives of a level. -/
def branchesOf (l : Level) : List (List Piece) := (l.pieces.reverse :: l.branches).reverse

/-- The next alternative of the level. -/
def nextBranch (s : Levels) : Levels :=
  { s with top := { branches := s.top.pieces.reverse :: s.top.branches } }

/-- The level closed. -/
def closeGroup (s : Levels) : Except GlobFault Levels :=
  match s.outer with
  | [] => .error .unopenedAlternatives
  | l :: ls => .ok (push { top := l, outer := ls } (.alternatives (branchesOf s.top)))

/-- The pieces of the glob. -/
def finish (s : Levels) : Except GlobFault (List Piece) :=
  if s.isNested then .error .unclosedAlternatives else .ok s.top.pieces.reverse

end Levels

/-! ## Two stars -/

/-- What `**` stands for, given the character before it and those behind it.  The flag says
that it takes the slash behind it. -/
def readStars (s : Levels) (before : Option Char) (behind : List Char) : Levels × Bool :=
  let twoStars := (s.push .anyBytes).push .anyBytes
  let opensBranch := s.isNested && (before = some ',' || before = some '\x7b')
  match s.top.pieces with
  | [] =>
      match behind with
      | [] => (s.push .leading, false)
      | c :: _ => if c = '/' then (s.push .leading, true) else (twoStars, false)
  | last :: _ =>
      if before ≠ some '/' && !opensBranch then (twoStars, false)
      else
        let joined (p : Piece) : Levels :=
          match last with
          | .leading => s
          | .inside => s
          | _ => s.replace p
        match behind with
        | [] => (joined .inside, false)
        | c :: _ =>
            if c = '/' then (joined .between, true)
            else if s.isNested && (c = ',' || c = '\x7d') then (joined .inside, false)
            else (twoStars, false)

/-! ## Globs -/

/-- Reads the characters behind `before`.  `plain` says that brackets are characters. -/
def readPieces (lenient plain : Bool) (s : Levels) (before : Option Char) (cs : List Char) :
    Except GlobFault (List Piece) :=
  match cs with
  | [] => s.finish
  | '?' :: cs => readPieces lenient plain (s.push .anyByte) (some '?') cs
  | '*' :: '*' :: cs =>
      let (s, takesSlash) := readStars s before cs
      match takesSlash, cs with
      | true, _ :: cs => readPieces lenient plain s (some '/') cs
      | _, cs => readPieces lenient plain s (some '*') cs
  | '*' :: cs => readPieces lenient plain (s.push .anyBytes) (some '*') cs
  | '[' :: cs =>
      if plain then readPieces lenient plain (s.push (.literal '[')) (some '[') cs
      else
        match readClass (cutClass (cutSign cs).2).1 with
        | .error e => .error e
        | .ok ranges =>
            match h : (cutClass (cutSign cs).2).2 with
            | some rest =>
                have : rest.length ≤ cs.length :=
                  Nat.le_trans (length_of_cutClass h) (length_cutSign cs)
                readPieces lenient plain (s.push (.oneOf (cutSign cs).1 ranges)) (some ']') rest
            | none =>
                if lenient then readPieces lenient true (s.push (.literal '[')) (some '[') cs
                else .error .unclosedClass
  | '\x7b' :: cs => readPieces lenient plain s.openGroup (some '\x7b') cs
  | '\x7d' :: cs =>
      match s.closeGroup with
      | .error e => .error e
      | .ok s => readPieces lenient plain s (some '\x7d') cs
  | ',' :: cs =>
      readPieces lenient plain (if s.isNested then s.nextBranch else s.push (.literal ','))
        (some ',') cs
  | ['\\'] => .error .danglingEscape
  | '\\' :: c :: cs => readPieces lenient plain (s.push (.literal c)) (some c) cs
  | c :: cs => readPieces lenient plain (s.push (.literal c)) (some c) cs
termination_by cs.length

/-- The glob of a text. -/
def parse (text : String) : Except GlobFault Glob :=
  (readPieces false false {} none text.toList).map fun ps => { pieces := ps }

/-- The separated glob of a text, read leniently. -/
def parseSeparated (text : String) : Except GlobFault Glob :=
  (readPieces true false {} none text.toList).map fun ps => { pieces := ps, separated := true }

end Glob

end ImportTidy
