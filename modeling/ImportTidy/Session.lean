import ImportTidy.Group
import ImportTidy.NaturalOrder
import ImportTidy.Settings
import ImportTidy.Statement.Reader

/-!
# Sessions

A session gathers the statements of one or more sources into groups.  It keeps
the groups and the arena of their names.

The entries of a plain statement are modules.  A module that some plain group has
is dropped.  The first one that is not goes into a new group, or under squashing
into the first plain group if there is one, and those behind it follow.

The entries of a `from` statement go into one group, each text once.  Under
squashing this is the group of the same source, if there is one.  Otherwise it is
a new group, which joins the others when the statement is complete.

A run over a source performs the statements of its script in order.  Where the
script is broken, what was settled of the statement at hand is performed too, but
a group that would be new is not made.  Its names then stay in the arena without a
group.
-/

namespace ImportTidy

/-- The groups gathered so far, with the arena of their names. -/
structure Session where
  /-- The names. -/
  arena : Arena := {}
  /-- The groups in order of discovery. -/
  groups : Groups := []
deriving DecidableEq, Repr

namespace Session

/-! ## Plain statements -/

/-- The session with a module of a plain statement, and the place of the group that
takes the next one.  `place` is that group before. -/
def addModule (squash : Bool) (line : Nat) (s : Session) (place : Option Nat) (text : String) :
    Session × Option Nat :=
  if s.groups.plainContains s.arena text then (s, place)
  else
    let found := place.or (if squash then s.groups.firstPlain? else none)
    let groups := if found.isSome then s.groups else s.groups ++ [{ kind := .plain, line := line }]
    let target := found.getD s.groups.length
    ({ arena := s.arena.alloc text, groups := groups.pushAt target s.arena.nextHandle },
      some target)

/-- The session with the modules of a plain statement. -/
def addModules (squash : Bool) (line : Nat) (s : Session) (place : Option Nat) :
    List Entry → Session
  | [] => s
  | e :: es =>
      let added := addModule squash line s place e.text
      addModules squash line added.1 added.2 es

/-! ## Statements with a source -/

/-- The arena and the group with the texts that the group does not have yet. -/
def collect (a : Arena) (g : Group) : List Entry → Arena × Group
  | [] => (a, g)
  | e :: es =>
      if g.contains a e.text then collect a g es
      else collect (a.alloc e.text) (g.push a.nextHandle) es

/-- The group that takes the names of a source under squashing, with its place. -/
def target? (squash : Bool) (s : Session) (source : String) : Option (Nat × Group) := do
  let place ← if squash then s.groups.findSource? s.arena source else none
  let g ← s.groups[place]?
  return (place, g)

/-- The session with the names of a source in the group at this place. -/
def merge (s : Session) (place : Nat) (g : Group) (entries : List Entry) : Session :=
  let filled := collect s.arena g entries
  { arena := filled.1, groups := s.groups.set place filled.2 }

/-- The arena with a source and its names, and the new group that has them. -/
def found (s : Session) (source : String) (line : Nat) (entries : List Entry) : Arena × Group :=
  collect (s.arena.alloc source) { kind := .source s.arena.nextHandle, line := line } entries

/-! ## Statements and scripts -/

/-- The session with a statement. -/
def perform (squash : Bool) (s : Session) (st : Statement) : Session :=
  match st.origin with
  | .plain => s.addModules squash st.line none st.entries
  | .source m =>
      match s.target? squash m with
      | some (place, g) => s.merge place g st.entries
      | none =>
          let new := s.found m st.line st.entries
          { arena := new.1, groups := s.groups ++ [new.2] }

/-- The session with what was settled of a statement that never became complete. -/
def abandon (squash : Bool) (s : Session) (st : Statement) : Session :=
  match st.origin with
  | .plain => s.addModules squash st.line none st.entries
  | .source m =>
      match s.target? squash m with
      | some (place, g) => s.merge place g st.entries
      | none => { s with arena := (s.found m st.line st.entries).1 }

/-- The session with the statements of a script. -/
def performAll (squash : Bool) (s : Session) (statements : List Statement) : Session :=
  statements.foldl (perform squash) s

/-- The session with a script, and the fault at which the script is broken. -/
def follow (squash : Bool) (s : Session) (script : Script) : Session × Option SyntaxFault :=
  let done := s.performAll squash script.statements
  match script.ending with
  | .complete => (done, none)
  | .broken none fault => (done, some fault)
  | .broken (some st) fault => (done.abandon squash st, some fault)

/-! ## Running and rendering -/

/-- A run over a feed. -/
def run (settings : SortSettings) (s : Session) (feed : Feed) : Session × Option SyntaxFault :=
  s.follow settings.squash (.ofFeed feed)

/-- A run over the bytes of an input. -/
def runBytes (settings : SortSettings) (s : Session) (bytes : List UInt8) :
    Session × Option SyntaxFault :=
  s.run settings (.ofBytes settings.maxLineLength bytes)

/-- The session without its groups and names. -/
def release (_ : Session) : Session := {}

/-- What a statement that imports from this source starts with. -/
def leadOf (source : Option String) : String :=
  match source with
  | none => "import "
  | some m => "from " ++ m ++ " import "

/-- The names of a group in natural order. -/
def sortedNames (a : Arena) (g : Group) : List String := NaturalOrder.sort (g.texts a)

/-- The statement of a group. -/
def renderGroup (rule : WrapRule) (a : Arena) (g : Group) : String :=
  Layout.render rule (leadOf (g.source? a)) (sortedNames a g)

/-- The statements of all groups, each with a newline. -/
def render (rule : WrapRule) (s : Session) : String :=
  String.join (s.groups.map fun g => renderGroup rule s.arena g ++ "\n")

end Session

/-- The import block of a text, or the fault at which its reading stops.  Sums wrap. -/
def reorganize (settings : SortSettings) (text : String) : Except ParseError String :=
  match Session.runBytes settings {} (Utf8.encode text) with
  | (s, none) => .ok (s.render settings.wrap)
  | (_, some fault) => .error ⟨"<string>", fault⟩

/-- What a build makes of a text, or nothing where it panics.  Every text takes a read, if only
to find its end. -/
def Build.tidy (b : Build) (settings : SortSettings) (text : String) :
    Option (Except ParseError String) :=
  if b.panics settings.maxLineLength then none else some (reorganize settings text)

end ImportTidy
