/-!
# The layout of a statement

A statement is a lead, which is `import ` or `from m import `, with names behind
it.  On one line the names are joined by a comma and a blank.  A statement that
is wrapped has its names in parentheses, on lines that start below the first
name.

```text
from pkg import (a, b,
                 c, d)
```

A statement is wrapped if it has more names than `WrapRule.first`, or if a column
is set and the one line goes beyond it.  The first line of a wrapped statement
takes at most `WrapRule.first` names and every other line at most
`WrapRule.each`; where `first` is zero the first line is like the others.  With a
column set, a line that has a name takes another one only if the line and the
character that closes it stay within the column.  So a name that is too long
stands alone on its line.

Widths count characters.
-/

namespace ImportTidy

/-- When and how statements are wrapped. -/
structure WrapRule where
  /-- Never wrap. -/
  disabled : Bool := false
  /-- The most names of a statement on one line, and of a first line. -/
  first : Nat := 4
  /-- The most names of every other line.  Zero stands for one. -/
  each : Nat := 4
  /-- The last column, if it is not zero. -/
  column : Nat := 0
deriving DecidableEq, Repr

namespace Layout

/-- The names on one line. -/
def flat (names : List String) : String := ", ".intercalate names

/-- A text of blanks. -/
def blanks (n : Nat) : String := String.ofList (List.replicate n ' ')

/-- The statement is wrapped. -/
def wraps (rule : WrapRule) (count width : Nat) : Bool :=
  !rule.disabled && (count > rule.first || (rule.column > 0 && width > rule.column))

/-- The most names of a line. -/
def capacity (rule : WrapRule) (isFirst : Bool) : Nat :=
  if isFirst && rule.first > 0 then rule.first else max rule.each 1

/-- The columns that a name takes on a line: its width, and that of the separator
before it. -/
def advance (lineIsEmpty : Bool) (name : String) : Nat :=
  if lineIsEmpty then name.length else name.length + 2

/-- The name has no room on a line that ends at `width` and has these names, newest
first. -/
def isFull (rule : WrapRule) (isFirst : Bool) (width : Nat) (line : List String) (name : String) :
    Bool :=
  line.length ≥ capacity rule isFirst
    || (rule.column > 0 && !line.isEmpty && width + advance line.isEmpty name + 1 > rule.column)

/-- The lines of the names behind a line that is not yet closed.  `line` has the
names of that line, newest first, and `width` is where it ends. -/
def wrapFrom (rule : WrapRule) (indent : Nat) (isFirst : Bool) (width : Nat) (line : List String) :
    List String → List (List String)
  | [] => if line.isEmpty then [] else [line.reverse]
  | name :: names =>
      if isFull rule isFirst width line name then
        line.reverse :: wrapFrom rule indent false (indent + advance true name) [name] names
      else
        wrapFrom rule indent isFirst (width + advance line.isEmpty name) (name :: line) names

/-- The names in lines that start at `indent`. -/
def wrapLines (rule : WrapRule) (indent : Nat) (names : List String) : List (List String) :=
  wrapFrom rule indent true indent [] names

/-- The text of a statement. -/
def render (rule : WrapRule) (lead : String) (names : List String) : String :=
  let line := lead ++ flat names
  if wraps rule names.length line.length then
    let indent := lead.length + 1
    let gap := ",\n" ++ blanks indent
    lead ++ "(" ++ gap.intercalate ((wrapLines rule indent names).map flat) ++ ")"
  else line

/-- Wrapping keeps every name, in order. -/
theorem flatten_wrapFrom (rule : WrapRule) (indent : Nat) (isFirst : Bool) (width : Nat)
    (line names : List String) :
    (wrapFrom rule indent isFirst width line names).flatten = line.reverse ++ names := by
  induction names generalizing isFirst width line with
  | nil =>
    cases line with
    | nil => rfl
    | cons a l => simp [wrapFrom]
  | cons name names ih =>
    rw [wrapFrom]
    split
    · simp [ih]
    · simp [ih]

theorem flatten_wrapLines (rule : WrapRule) (indent : Nat) (names : List String) :
    (wrapLines rule indent names).flatten = names := by
  simp [wrapLines, flatten_wrapFrom]

end Layout

end ImportTidy
