import ImportTidy.Json
import ImportTidy.Yaml.Scalar

/-!
# Writing YAML

`Yaml.render` writes a value as a block.  A member of a mapping takes a line of its
own, and so does an item of a sequence, behind `- `.  The members of a mapping that
stands inside a mapping or a sequence are two blanks further in.  The items of a
sequence that is the value of a member are not.

The first member of a mapping that is an item stands on the line of its `- `.  So
does the first item of a sequence that is an item.  An empty mapping and an empty
sequence are written in brackets.
-/

namespace ImportTidy.Yaml

/-- The blanks at the start of a line. -/
def margin (indent : Nat) : String := String.ofList (indentation indent)

mutual

/-- A value behind the key of a member that stands at `indent`, to the end of its
last line. -/
def memberValue (indent : Nat) : Json → String
  | .null => " null\n"
  | .bool true => " true\n"
  | .bool false => " false\n"
  | .natural n => " " ++ toString n ++ "\n"
  | .number literal => " " ++ literal ++ "\n"
  | .string s => " " ++ scalar (indent + 2) s
  | .array [] => " []\n"
  | .array (item :: items) =>
      "\n" ++ margin indent ++ "-" ++ itemValue indent item ++ restItems indent items
  | .object [] => " \x7b\x7d\n"
  | .object ((key, value) :: members) =>
      "\n" ++ margin (indent + 2) ++ key ++ ":" ++ memberValue (indent + 2) value
        ++ restMembers (indent + 2) members

/-- A value behind the dash of an item that stands at `indent`, to the end of its last
line. -/
def itemValue (indent : Nat) : Json → String
  | .null => " null\n"
  | .bool true => " true\n"
  | .bool false => " false\n"
  | .natural n => " " ++ toString n ++ "\n"
  | .number literal => " " ++ literal ++ "\n"
  | .string s => " " ++ scalar (indent + 2) s
  | .array [] => " []\n"
  | .array (item :: items) =>
      " -" ++ itemValue (indent + 2) item ++ restItems (indent + 2) items
  | .object [] => " \x7b\x7d\n"
  | .object ((key, value) :: members) =>
      " " ++ key ++ ":" ++ memberValue (indent + 2) value ++ restMembers (indent + 2) members

/-- The items behind the first one. -/
def restItems (indent : Nat) : List Json → String
  | [] => ""
  | item :: items =>
      margin indent ++ "-" ++ itemValue indent item ++ restItems indent items

/-- The members behind the first one. -/
def restMembers (indent : Nat) : List (String × Json) → String
  | [] => ""
  | (key, value) :: members =>
      margin indent ++ key ++ ":" ++ memberValue indent value ++ restMembers indent members

end

/-- A mapping, as a document.  Its keys are plain texts. -/
def render (members : List (String × Json)) : String :=
  if members.isEmpty then "\x7b\x7d\n" else restMembers 0 members

end ImportTidy.Yaml
