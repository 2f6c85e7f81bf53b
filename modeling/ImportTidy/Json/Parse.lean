import ImportTidy.Json

/-!
# Reading JSON

`Json.parse` reads a text that holds one value, with blanks around it.  It gives
none for any other text.

Each reader takes characters and gives what it read with the characters behind it.
A value may hold values, so the reader of values counts down a depth.  The length
of the text is depth enough, since each level takes a character.
-/

namespace ImportTidy.Json

/-- The characters that may stand between tokens. -/
def isGap (c : Char) : Bool := c = ' ' || c = '\t' || c = '\n' || c = '\r'

/-- The characters behind the gap in front. -/
def skipGap (cs : List Char) : List Char := cs.dropWhile isGap

/-! ## Numbers -/

/-- The digits in front, and the characters behind them. -/
def takeDigits (cs : List Char) : List Char × List Char :=
  (cs.takeWhile Char.isDigit, cs.dropWhile Char.isDigit)

/-- The number that digits denote. -/
def numberOf (digits : List Char) : Nat :=
  digits.foldl (fun n c => 10 * n + (c.toNat - 0x30)) 0

/-- The digits before a fraction.  A zero stands alone. -/
def readInteger (cs : List Char) : Option (List Char × List Char) :=
  match takeDigits cs with
  | ([], _) => none
  | (['0'], rest) => some (['0'], rest)
  | ('0' :: _, _) => none
  | found => some found

/-- The fraction in front, which may be absent. -/
def readFraction : List Char → Option (List Char × List Char)
  | '.' :: cs =>
      match takeDigits cs with
      | ([], _) => none
      | (digits, rest) => some ('.' :: digits, rest)
  | cs => some ([], cs)

/-- The exponent in front, which may be absent. -/
def readExponent : List Char → Option (List Char × List Char)
  | [] => some ([], [])
  | e :: cs =>
      if e = 'e' ∨ e = 'E' then
        let (sign, rest) : List Char × List Char :=
          match cs with
          | '+' :: r => (['+'], r)
          | '-' :: r => (['-'], r)
          | r => ([], r)
        match takeDigits rest with
        | ([], _) => none
        | (digits, rest) => some (e :: sign ++ digits, rest)
      else some ([], e :: cs)

/-- The number in front. -/
def readNumber (cs : List Char) : Option (Json × List Char) := do
  let (sign, cs) : List Char × List Char :=
    match cs with
    | '-' :: r => (['-'], r)
    | r => ([], r)
  let (integer, cs) ← readInteger cs
  let (fraction, cs) ← readFraction cs
  let (exponent, cs) ← readExponent cs
  if sign = [] ∧ fraction = [] ∧ exponent = [] then return (.natural (numberOf integer), cs)
  else return (.number (String.ofList (sign ++ integer ++ fraction ++ exponent)), cs)

/-! ## Texts -/

/-- The value of a hexadecimal digit. -/
def hexValue? (c : Char) : Option Nat :=
  if '0' ≤ c ∧ c ≤ '9' then some (c.toNat - 0x30)
  else if 'a' ≤ c ∧ c ≤ 'f' then some (c.toNat - 0x57)
  else if 'A' ≤ c ∧ c ≤ 'F' then some (c.toNat - 0x37)
  else none

/-- The number that four hexadecimal digits denote. -/
def hexFour? (a b c d : Char) : Option Nat := do
  let w ← hexValue? a
  let x ← hexValue? b
  let y ← hexValue? c
  let z ← hexValue? d
  return 4096 * w + 256 * x + 16 * y + z

/-- The character of a code unit, or of a pair of surrogates.  A surrogate alone is
no character. -/
def charOfUnit? (unit : Nat) (cs : List Char) : Option (Char × List Char) :=
  if unit < 0xD800 ∨ 0xE000 ≤ unit then some (Char.ofNat unit, cs)
  else if 0xDC00 ≤ unit then none
  else
    match cs with
    | '\\' :: 'u' :: a :: b :: c :: d :: rest =>
        match hexFour? a b c d with
        | none => none
        | some low =>
            if 0xDC00 ≤ low ∧ low < 0xE000 then
              some (Char.ofNat (0x10000 + (unit - 0xD800) * 0x400 + (low - 0xDC00)), rest)
            else none
    | _ => none

/-- The character that an escape in front denotes.  The backslash is already read. -/
def readEscape : List Char → Option (Char × List Char)
  | 'b' :: cs => some ('\x08', cs)
  | 'f' :: cs => some ('\x0c', cs)
  | 'n' :: cs => some ('\n', cs)
  | 'r' :: cs => some ('\r', cs)
  | 't' :: cs => some ('\t', cs)
  | 'u' :: a :: b :: c :: d :: cs => (hexFour? a b c d).bind fun unit => charOfUnit? unit cs
  | c :: cs => if c = '\x22' ∨ c = '\\' ∨ c = '/' then some (c, cs) else none
  | [] => none

/-- The characters up to the closing quote, for a text no longer than `limit`. -/
def readQuoted : Nat → List Char → Option (List Char × List Char)
  | 0, _ => none
  | _, [] => none
  | limit + 1, c :: cs =>
      if c = '\x22' then some ([], cs)
      else if c = '\\' then do
        let (d, rest) ← readEscape cs
        let (ds, rest) ← readQuoted limit rest
        return (d :: ds, rest)
      else if c.toNat < 0x20 then none
      else do
        let (ds, rest) ← readQuoted limit cs
        return (c :: ds, rest)

/-- The text in front.  Its opening quote is already read. -/
def readText (cs : List Char) : Option (String × List Char) :=
  (readQuoted (cs.length + 1) cs).map fun r => (String.ofList r.1, r.2)

/-! ## Values -/

mutual

/-- The value in front, nested no deeper than `depth`. -/
def readValue : Nat → List Char → Option (Json × List Char)
  | 0, _ => none
  | depth + 1, cs =>
      match skipGap cs with
      | 'n' :: 'u' :: 'l' :: 'l' :: rest => some (.null, rest)
      | 't' :: 'r' :: 'u' :: 'e' :: rest => some (.bool true, rest)
      | 'f' :: 'a' :: 'l' :: 's' :: 'e' :: rest => some (.bool false, rest)
      | '\x22' :: rest => (readText rest).map fun r => (.string r.1, r.2)
      | '[' :: rest =>
          match skipGap rest with
          | ']' :: rest => some (.array [], rest)
          | rest => (readItems depth rest).map fun r => (.array r.1, r.2)
      | '\x7b' :: rest =>
          match skipGap rest with
          | '\x7d' :: rest => some (.object [], rest)
          | rest => (readMembers depth rest).map fun r => (.object r.1, r.2)
      | rest => readNumber rest

/-- The items up to the closing bracket. -/
def readItems : Nat → List Char → Option (List Json × List Char)
  | 0, _ => none
  | depth + 1, cs =>
      match readValue depth cs with
      | none => none
      | some (item, rest) =>
          match skipGap rest with
          | ',' :: rest => (readItems depth rest).map fun r => (item :: r.1, r.2)
          | ']' :: rest => some ([item], rest)
          | _ => none

/-- The members up to the closing brace. -/
def readMembers : Nat → List Char → Option (List (String × Json) × List Char)
  | 0, _ => none
  | depth + 1, cs =>
      match skipGap cs with
      | '\x22' :: rest =>
          match readText rest with
          | none => none
          | some (key, rest) =>
              match skipGap rest with
              | ':' :: rest =>
                  match readValue depth rest with
                  | none => none
                  | some (value, rest) =>
                      match skipGap rest with
                      | ',' :: rest =>
                          (readMembers depth rest).map fun r => ((key, value) :: r.1, r.2)
                      | '\x7d' :: rest => some ([(key, value)], rest)
                      | _ => none
              | _ => none
      | _ => none

end

/-- The value that a text holds. -/
def parse (text : String) : Option Json :=
  let cs := text.toList
  match readValue (cs.length + 1) cs with
  | some (v, rest) => if skipGap rest = [] then some v else none
  | none => none

end ImportTidy.Json
