import ImportTidy.Json.Parse

/-!
# The text of a configuration file

A configuration file is a TOML document whose lines each set a key to a truth value, an
integer or a list of texts.

```text
# how to wrap
wrap_after_col = 79
known_libraries = ["requests", 'numpy']
```

TOML has more: tables, dates, floats, texts that stand alone.  No key takes one of these,
so `ConfigSyntax.parse` refuses a document that holds one.

* A key is a word of letters, digits, `_` and `-`, or a text in quotes on one line.
* An integer is decimal with a sign or none, or starts with `0x`, `0o` or `0b`.
  Underscores may stand between digits, and a decimal starts with no needless zero.  It
  fits into 64 bits with a sign.
* A text stands in double quotes, with escapes, or in single quotes, without.  Three
  quotes let it go over several lines, each of which ends in a newline alone whatever ends
  it in the file.  A newline right behind the opening quotes does not count.  Before the
  closing quotes there may be one or two more that belong to the text.
* A list may go over several lines, with comments, and may end in a comma.

Control characters stand nowhere, but for the tab and what ends a line.
-/

namespace ImportTidy.ConfigSyntax

/-- What a key is set to. -/
inductive Value where
  /-- A truth value. -/
  | bool (b : Bool)
  /-- An integer. -/
  | integer (n : Int)
  /-- A list of texts. -/
  | texts (items : List String)
deriving DecidableEq, Repr

/-! ## Gaps -/

/-- The characters that may stand between the tokens of a line. -/
def isBlank (c : Char) : Bool := c = ' ' || c = '\t'

/-- The characters that may stand in a text and in a comment. -/
def isTextChar (c : Char) : Bool := c = '\t' || (0x20 ≤ c.toNat && c.toNat ≠ 0x7F)

/-- The characters behind blanks. -/
def skipBlanks (cs : List Char) : List Char := cs.dropWhile isBlank

/-- The characters behind blanks, line ends and comments. -/
def skipGap (inComment : Bool) : List Char → Option (List Char)
  | [] => some []
  | '\n' :: cs => skipGap false cs
  | '\r' :: '\n' :: cs => skipGap false cs
  | c :: cs =>
      if inComment then if isTextChar c then skipGap true cs else none
      else if isBlank c then skipGap false cs
      else if c = '#' then skipGap true cs
      else some (c :: cs)

/-- The characters behind the end of a line, before which a comment may stand. -/
def endLine (cs : List Char) : Option (List Char) :=
  let behind := match skipBlanks cs with
    | '#' :: cs => cs.dropWhile isTextChar
    | cs => cs
  match behind with
  | [] => some []
  | '\n' :: cs => some cs
  | '\r' :: '\n' :: cs => some cs
  | _ => none

/-! ## Integers -/

/-- The digits of a number, without the underscores between two of them. -/
def digitsOf? : List Char → Option (List Char)
  | [] => none
  | [c] => if c = '_' then none else some [c]
  | c :: '_' :: cs => if c = '_' then none else (digitsOf? cs).map (c :: ·)
  | c :: cs => if c = '_' then none else (digitsOf? cs).map (c :: ·)

/-- The digit is one of this base. -/
def isDigitOf (base : Nat) (c : Char) : Bool := (Json.hexValue? c).any (· < base)

/-- The number of the digits in front, and the characters behind them. -/
def readDigits (base : Nat) (cs : List Char) : Option (Nat × List Char) :=
  let isPart (c : Char) : Bool := c = '_' || isDigitOf base c
  (digitsOf? (cs.takeWhile isPart)).map fun digits =>
    (digits.foldl (fun n c => base * n + (Json.hexValue? c).getD 0) 0, cs.dropWhile isPart)

/-- The decimal number in front.  Only zero itself starts with a zero. -/
def readDecimal (cs : List Char) : Option (Nat × List Char) :=
  match cs with
  | '0' :: c :: _ => if c = '_' || c.isDigit then none else readDigits 10 cs
  | _ => readDigits 10 cs

/-- The integer if 64 bits hold it. -/
def bounded? (found : Int × List Char) : Option (Value × List Char) :=
  if -0x8000000000000000 ≤ found.1 ∧ found.1 < 0x8000000000000000 then
    some (.integer found.1, found.2)
  else none

/-- The integer in front. -/
def readInteger (cs : List Char) : Option (Value × List Char) := do
  let (n, rest) : Int × List Char ←
    match cs with
    | '0' :: 'x' :: digits => (readDigits 16 digits).map fun r => (Int.ofNat r.1, r.2)
    | '0' :: 'o' :: digits => (readDigits 8 digits).map fun r => (Int.ofNat r.1, r.2)
    | '0' :: 'b' :: digits => (readDigits 2 digits).map fun r => (Int.ofNat r.1, r.2)
    | '+' :: digits => (readDecimal digits).map fun r => (Int.ofNat r.1, r.2)
    | '-' :: digits => (readDecimal digits).map fun r => (-Int.ofNat r.1, r.2)
    | digits => (readDecimal digits).map fun r => (Int.ofNat r.1, r.2)
  bounded? (n, rest)

/-! ## Texts -/

/-- The character of this number. -/
def charOf? (n : Nat) : Option Char :=
  if n < 0xD800 ∨ (0xDFFF < n ∧ n < 0x110000) then some (Char.ofNat n) else none

/-- The character that hexadecimal digits in front denote, `count` of them. -/
def readCode (count : Nat) (cs : List Char) : Option (Char × List Char) := do
  let digits ← (cs.take count).mapM Json.hexValue?
  if digits.length = count then
    return (← charOf? (digits.foldl (fun n d => 16 * n + d) 0), cs.drop count)
  else none

/-- The character of the escape in front.  The backslash is already read. -/
def readEscape : List Char → Option (Char × List Char)
  | 'b' :: cs => some ('\x08', cs)
  | 't' :: cs => some ('\t', cs)
  | 'n' :: cs => some ('\n', cs)
  | 'f' :: cs => some ('\x0c', cs)
  | 'r' :: cs => some ('\r', cs)
  | 'u' :: cs => readCode 4 cs
  | 'U' :: cs => readCode 8 cs
  | c :: cs => if c = '\x22' ∨ c = '\\' then some (c, cs) else none
  | [] => none

/-- One more character in front of those that were read. -/
def cons? (c : Char) (found : Option (List Char × List Char)) : Option (List Char × List Char) :=
  found.map fun r => (c :: r.1, r.2)

/-- The characters up to the closing double quote, for a text no longer than `limit`. -/
def readBasic : Nat → List Char → Option (List Char × List Char)
  | 0, _ => none
  | _, [] => none
  | limit + 1, c :: cs =>
      if c = '\x22' then some ([], cs)
      else if c = '\\' then
        match readEscape cs with
        | none => none
        | some (d, rest) => cons? d (readBasic limit rest)
      else if isTextChar c then cons? c (readBasic limit cs)
      else none

/-- The characters up to the closing single quote. -/
def readLiteral : List Char → Option (List Char × List Char)
  | [] => none
  | c :: cs =>
      if c = '\'' then some ([], cs)
      else if isTextChar c then cons? c (readLiteral cs)
      else none

/-- The characters behind blanks and line ends. -/
def skipLines : List Char → List Char
  | '\r' :: '\n' :: cs => skipLines cs
  | c :: cs => if isBlank c || c = '\n' then skipLines cs else c :: cs
  | [] => []

/-- The characters behind a backslash that joins lines: blanks, a newline, and all blanks
and newlines behind it. -/
def joinLines (cs : List Char) : Option (List Char) :=
  match skipBlanks cs with
  | '\n' :: cs => some (skipLines cs)
  | '\r' :: '\n' :: cs => some (skipLines cs)
  | _ => none

/-- The quotes of a text that stand before the closing ones, and the characters behind
these.  Three quotes are already read. -/
def closeBlock (quote : Char) : List Char → List Char × List Char
  | a :: b :: cs =>
      if a = quote then if b = quote then ([a, b], cs) else ([a], b :: cs) else ([], a :: b :: cs)
  | [a] => if a = quote then ([a], []) else ([], [a])
  | [] => ([], [])

/-- The characters of a text over several lines up to its closing quotes, for a text no
longer than `limit`.  In double quotes there are escapes. -/
def readBlock (quote : Char) : Nat → List Char → Option (List Char × List Char)
  | 0, _ => none
  | _, [] => none
  | limit + 1, c :: cs =>
      match c, cs with
      | '\r', '\n' :: cs => cons? '\n' (readBlock quote limit cs)
      | '\n', cs => cons? '\n' (readBlock quote limit cs)
      | c, cs =>
          if c = quote && cs.take 2 = [quote, quote] then some (closeBlock quote (cs.drop 2))
          else if c = '\\' && quote = '\x22' then
            match joinLines cs with
            | some rest => readBlock quote limit rest
            | none =>
                match readEscape cs with
                | none => none
                | some (d, rest) => cons? d (readBlock quote limit rest)
          else if isTextChar c then cons? c (readBlock quote limit cs)
          else none

/-- The characters behind a newline that stands right behind the opening quotes. -/
def skipFirstBreak : List Char → List Char
  | '\n' :: cs => cs
  | '\r' :: '\n' :: cs => cs
  | cs => cs

/-- The text in quotes on one line in front. -/
def readQuoted : List Char → Option (List Char × List Char)
  | '\x22' :: cs => readBasic (cs.length + 1) cs
  | '\'' :: cs => readLiteral cs
  | _ => none

/-- The text in front. -/
def readText (cs : List Char) : Option (String × List Char) :=
  let found :=
    match cs with
    | '\x22' :: '\x22' :: '\x22' :: cs => readBlock '\x22' (cs.length + 1) (skipFirstBreak cs)
    | '\'' :: '\'' :: '\'' :: cs => readBlock '\'' (cs.length + 1) (skipFirstBreak cs)
    | cs => readQuoted cs
  found.map fun r => (String.ofList r.1, r.2)

/-! ## Lists and values -/

/-- The texts up to the closing bracket, for no more than `limit` of them. -/
def readItems : Nat → List Char → Option (List String × List Char)
  | 0, _ => none
  | limit + 1, cs =>
      match skipGap false cs with
      | none => none
      | some (']' :: rest) => some ([], rest)
      | some cs =>
          match readText cs with
          | none => none
          | some (item, rest) =>
              match skipGap false rest with
              | some (',' :: rest) => (readItems limit rest).map fun r => (item :: r.1, r.2)
              | some (']' :: rest) => some ([item], rest)
              | _ => none

/-- The value in front. -/
def readValue : List Char → Option (Value × List Char)
  | '[' :: cs => (readItems (cs.length + 1) cs).map fun r => (.texts r.1, r.2)
  | 't' :: 'r' :: 'u' :: 'e' :: cs => some (.bool true, cs)
  | 'f' :: 'a' :: 'l' :: 's' :: 'e' :: cs => some (.bool false, cs)
  | cs => readInteger cs

/-! ## Documents -/

/-- The characters of a word that is a key. -/
def isKeyChar (c : Char) : Bool := c.isAlphanum || c = '_' || c = '-'

/-- The key in front. -/
def readKey (cs : List Char) : Option (String × List Char) :=
  match cs.takeWhile isKeyChar with
  | [] => (readQuoted cs).map fun r => (String.ofList r.1, r.2)
  | word => some (String.ofList word, cs.dropWhile isKeyChar)

/-- The line in front that sets a key. -/
def readEntry (cs : List Char) : Option ((String × Value) × List Char) := do
  let (key, rest) ← readKey cs
  match skipBlanks rest with
  | '=' :: rest =>
      let (value, rest) ← readValue (skipBlanks rest)
      return ((key, value), ← endLine rest)
  | _ => none

/-- The lines that set keys, no more than `limit` of them. -/
def readEntries : Nat → List Char → Option (List (String × Value))
  | 0, _ => none
  | limit + 1, cs =>
      match skipGap false cs with
      | none => none
      | some [] => some []
      | some cs =>
          match readEntry cs with
          | none => none
          | some (entry, rest) => (readEntries limit rest).map (entry :: ·)

/-- What a document sets, in order. -/
def parse (text : String) : Option (List (String × Value)) :=
  let cs := match text.toList with
    | '\uFEFF' :: cs => cs
    | cs => cs
  readEntries (cs.length + 1) cs

end ImportTidy.ConfigSyntax
