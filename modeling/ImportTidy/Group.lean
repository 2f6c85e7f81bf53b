import ImportTidy.Arena

/-!
# Groups of names

A group is a list of names that one rendered statement imports.  It is plain, or
has the source it imports from.  Its names are handles into an arena, in order of
arrival, and so is its source.

A handle may have been released.  Then a group does not show it: a name that is
gone is passed over, and a group whose source is gone has no source, though it is
still not plain.
-/

namespace ImportTidy

/-- What the names of a group are. -/
inductive GroupKind where
  /-- Modules. -/
  | plain
  /-- Names of the module behind this handle. -/
  | source (module : Handle)
deriving DecidableEq, Repr

/-- The names of one rendered statement. -/
structure Group where
  /-- What the names are. -/
  kind : GroupKind
  /-- The names in order of arrival. -/
  names : List Handle := []
  /-- The line of the statement that made the group. -/
  line : Nat
deriving DecidableEq, Repr

namespace Group

/-- The group is plain. -/
def isPlain (g : Group) : Bool := g.kind = .plain

/-- The source of a group. -/
def source? (g : Group) (a : Arena) : Option String :=
  match g.kind with
  | .plain => none
  | .source m => a.get? m

/-- The names of a group. -/
def texts (g : Group) (a : Arena) : List String := g.names.filterMap a.get?

/-- The group has a name of this text. -/
def contains (g : Group) (a : Arena) (text : String) : Bool :=
  g.names.any fun h => a.get? h == some text

/-- The group with one more name. -/
def push (g : Group) (h : Handle) : Group := { g with names := g.names ++ [h] }

theorem contains_iff (g : Group) (a : Arena) (text : String) :
    g.contains a text = true ↔ text ∈ g.texts a := by
  simp [contains, texts]

end Group

/-- Groups in order of discovery. -/
abbrev Groups := List Group

namespace Groups

/-- The place of the first group that imports from this source. -/
def findSource? (gs : Groups) (a : Arena) (source : String) : Option Nat :=
  gs.findIdx? fun g => g.source? a == some source

/-- The place of the first plain group. -/
def firstPlain? (gs : Groups) : Option Nat := gs.findIdx? Group.isPlain

/-- Some plain group has a name of this text. -/
def plainContains (gs : Groups) (a : Arena) (text : String) : Bool :=
  gs.any fun g => g.isPlain && g.contains a text

/-- The groups with one more name in the group at this place. -/
def pushAt (gs : Groups) (place : Nat) (h : Handle) : Groups := gs.modify place (·.push h)

end Groups

end ImportTidy
