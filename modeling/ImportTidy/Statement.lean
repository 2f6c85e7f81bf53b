import ImportTidy.Token

/-!
# Import statements

There are two kinds of statement: `import a, b as c` and `from m import a, b as
c`.  The words between commas are the entries.  The list of entries is bare or
stands in parentheses, where it may go over several lines and may end in a comma.

A source is read as a `Script`: the statements it holds in reading order, and how
the reading ended.  Where it ended in a fault, the script keeps what was already
settled of the statement at hand.

* Before the word `import` of a `from` statement nothing is settled.
* In parentheses no entry is settled before the whole list is read.
* In a bare list an entry is settled when the token behind it is read.
-/

namespace ImportTidy

/-- One name of a list, with the name it is bound to if that is another. -/
structure Entry where
  /-- The name. -/
  name : String
  /-- The name behind `as`. -/
  asName : Option String := none
deriving DecidableEq, Repr

/-- The text of an entry, as a rendered list shows it. -/
def Entry.text (e : Entry) : String :=
  match e.asName with
  | none => e.name
  | some a => e.name ++ " as " ++ a

/-- What a statement imports from. -/
inductive Origin where
  /-- Nothing: the entries are modules. -/
  | plain
  /-- A module, whose names the entries are. -/
  | source (module : String)
deriving DecidableEq, Repr

/-- An import statement. -/
structure Statement where
  /-- What it imports from. -/
  origin : Origin
  /-- The line of its first word. -/
  line : Nat
  /-- Its entries in reading order. -/
  entries : List Entry
deriving DecidableEq, Repr

/-! ## Faults -/

/-- What a statement wants at a place where it found something else. -/
inductive Expectation where
  /-- A module behind `import`. -/
  | moduleToImport
  /-- A module behind `from`. -/
  | moduleToImportFrom
  /-- The word `import`. -/
  | importWord
  /-- A name of a list. -/
  | importedName
  /-- A name behind `as`. -/
  | asName
  /-- A comma or the closing parenthesis. -/
  | separator
deriving DecidableEq, Repr

/-- How a message names what is wanted. -/
def Expectation.describe : Expectation → String
  | .moduleToImport => "module name after 'import'"
  | .moduleToImportFrom => "module name after 'from'"
  | .importWord => "'import'"
  | .importedName => "imported name"
  | .asName => "alias after 'as'"
  | .separator => "',' or ')'"

/-- Why the reading of a source stopped before its end. -/
inductive SyntaxFault where
  /-- A token stands where another was wanted. -/
  | unexpected (line column : Nat) (expected : Expectation) (found : TokenKind)
  /-- A line could not be read. -/
  | unread (error : ReadError)
deriving DecidableEq, Repr

/-- A fault in the source of this name. -/
structure ParseError where
  /-- The name of the source. -/
  context : String
  /-- The fault. -/
  fault : SyntaxFault
deriving DecidableEq, Repr

/-- The text of a fault: the source, the place and what is wrong there. -/
def ParseError.message (e : ParseError) : String :=
  match e.fault with
  | .unexpected line column expected found =>
      e.context ++ ":" ++ toString line ++ ":" ++ toString column ++ ": expected "
        ++ expected.describe ++ ", found " ++ found.describe
  | .unread (.tooLong line limit) =>
      e.context ++ ":" ++ toString line ++ ":" ++ toString limit
        ++ ": line exceeds the maximum length of " ++ toString limit ++ " bytes"
  | .unread (.io cause) => e.context ++ ": cannot read input: " ++ cause.message

/-- The line of a fault.  A source that could not be read has none. -/
def ParseError.line? (e : ParseError) : Option Nat :=
  match e.fault with
  | .unexpected line _ _ _ => some line
  | .unread (.tooLong line _) => some line
  | .unread (.io _) => none

/-! ## Scripts -/

/-- How the reading of a source ended. -/
inductive Ending where
  /-- At the end of the source. -/
  | complete
  /-- At a fault.  `settled` is what was settled of a statement at hand. -/
  | broken (settled : Option Statement) (fault : SyntaxFault)
deriving DecidableEq, Repr

/-- What a source holds: its statements in reading order, and how the reading
ended. -/
structure Script where
  /-- The statements read to their end. -/
  statements : List Statement
  /-- How the reading ended. -/
  ending : Ending
deriving DecidableEq, Repr

/-- A script with one more statement in front. -/
def Script.cons (s : Statement) (script : Script) : Script :=
  { script with statements := s :: script.statements }

end ImportTidy
