/-!
# JSON values

A value is a tree.  The members of an object keep their order.  A number that is
written with digits alone is a natural number, and every other number keeps its
literal.

`Json.pretty` writes a value over several lines, each level two blanks further in,
and `Json.compact` writes it on one line.  Both write a text in quotes, where

* a quote and a backslash follow a backslash,
* backspace, form feed, newline, carriage return and tab have their letters,
* every other character below `20` is written by its number in hexadecimal,
* all other characters stand for themselves.
-/

namespace ImportTidy

/-- A JSON value. -/
inductive Json where
  /-- The value `null`. -/
  | null
  /-- A truth value. -/
  | bool (b : Bool)
  /-- A number of digits alone. -/
  | natural (n : Nat)
  /-- Any other number, as it is written. -/
  | number (literal : String)
  /-- A text. -/
  | string (s : String)
  /-- A list of values. -/
  | array (items : List Json)
  /-- A list of named values. -/
  | object (members : List (String × Json))
deriving Repr, Inhabited

namespace Json

/-! ## Texts in quotes -/

/-- The hexadecimal digit of a number below sixteen. -/
def hexDigit (n : Nat) : Char := Char.ofNat (if n < 10 then 0x30 + n else 0x57 + n)

/-- How a character is written between quotes. -/
def escapeChar (c : Char) : List Char :=
  match c.toNat with
  | 0x22 => ['\\', c]
  | 0x5C => ['\\', c]
  | 0x08 => ['\\', 'b']
  | 0x0C => ['\\', 'f']
  | 0x0A => ['\\', 'n']
  | 0x0D => ['\\', 'r']
  | 0x09 => ['\\', 't']
  | n => if n < 0x20 then ['\\', 'u', '0', '0', hexDigit (n / 16), hexDigit (n % 16)] else [c]

/-- A text between quotes. -/
def quoted (s : String) : String := String.ofList ('\x22' :: s.toList.flatMap escapeChar ++ ['\x22'])

/-! ## Writing -/

/-- A line break and the blanks of a level. -/
def lineBreak (level : Nat) : String := String.ofList ('\n' :: List.replicate (2 * level) ' ')

mutual

/-- A value written over several lines, at a level. -/
def prettyAt (level : Nat) : Json → String
  | .null => "null"
  | .bool true => "true"
  | .bool false => "false"
  | .natural n => toString n
  | .number literal => literal
  | .string s => quoted s
  | .array [] => "[]"
  | .array (item :: items) =>
      "[" ++ lineBreak (level + 1) ++ prettyAt (level + 1) item ++ prettyItems (level + 1) items
        ++ lineBreak level ++ "]"
  | .object [] => "\x7b\x7d"
  | .object ((key, value) :: members) =>
      "\x7b" ++ lineBreak (level + 1) ++ quoted key ++ ": " ++ prettyAt (level + 1) value
        ++ prettyMembers (level + 1) members ++ lineBreak level ++ "\x7d"

/-- The items behind the first one. -/
def prettyItems (level : Nat) : List Json → String
  | [] => ""
  | item :: items => "," ++ lineBreak level ++ prettyAt level item ++ prettyItems level items

/-- The members behind the first one. -/
def prettyMembers (level : Nat) : List (String × Json) → String
  | [] => ""
  | (key, value) :: members =>
      "," ++ lineBreak level ++ quoted key ++ ": " ++ prettyAt level value
        ++ prettyMembers level members

end

/-- A value written over several lines. -/
def pretty (v : Json) : String := prettyAt 0 v

mutual

/-- A value written on one line. -/
def compact : Json → String
  | .null => "null"
  | .bool true => "true"
  | .bool false => "false"
  | .natural n => toString n
  | .number literal => literal
  | .string s => quoted s
  | .array [] => "[]"
  | .array (item :: items) => "[" ++ compact item ++ compactItems items ++ "]"
  | .object [] => "\x7b\x7d"
  | .object ((key, value) :: members) =>
      "\x7b" ++ quoted key ++ ":" ++ compact value ++ compactMembers members ++ "\x7d"

/-- The items behind the first one, on one line. -/
def compactItems : List Json → String
  | [] => ""
  | item :: items => "," ++ compact item ++ compactItems items

/-- The members behind the first one, on one line. -/
def compactMembers : List (String × Json) → String
  | [] => ""
  | (key, value) :: members =>
      "," ++ quoted key ++ ":" ++ compact value ++ compactMembers members

end

/-! ## Looking into a value -/

/-- The value of a member.  Of members with one name the last counts. -/
def member? (v : Json) (key : String) : Option Json :=
  match v with
  | .object members => (members.reverse.find? fun m => m.1 == key).map (·.2)
  | _ => none

/-- The text that a value is. -/
def text? : Json → Option String
  | .string s => some s
  | _ => none

/-- The truth value that a value is. -/
def bool? : Json → Option Bool
  | .bool b => some b
  | _ => none

/-- The natural number that a value is, if a 64-bit word holds it. -/
def word? : Json → Option Nat
  | .natural n => if n < UInt64.size then some n else none
  | _ => none

/-- The items of a list. -/
def items? : Json → Option (List Json)
  | .array items => some items
  | _ => none

/-- The texts of a list of texts. -/
def texts? (v : Json) : Option (List String) := v.items?.bind fun items => items.mapM text?

end Json

end ImportTidy
