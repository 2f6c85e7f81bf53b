import ImportTidy.Text.Whitespace
import ImportTidy.Yaml.Resolve

/-!
# YAML scalars

A text is written in the first of four styles that can hold it.

* A text with a newline is written as a block behind `|`, one line for each of its
  own.
* A text that would be read as another value is written between single quotes.
* Any other text is written plain, and between single quotes where a plain text may
  not have its characters.
* A text that none of these can hold is written between double quotes, with
  escapes.

Lines are never folded.
-/

namespace ImportTidy.Yaml

/-! ## Classes of characters -/

/-- The characters that end a line. -/
def isBreak (c : Char) : Bool :=
  c = '\n' || c = '\r' || c = '\x85' || c = '\u2028' || c = '\u2029'

/-- The characters that separate an indicator from what is behind it. -/
def isSeparation (c : Char) : Bool := c = ' ' || c = '\t' || c = '\x00' || isBreak c

/-- The characters that may stand outside double quotes. -/
def isPrintable (c : Char) : Bool :=
  let n := c.toNat
  n = 0x0A || (0x20 ≤ n && n ≤ 0x7E) || (0xA0 ≤ n && n ≠ 0xFEFF && n ≠ 0xFFFE && n ≠ 0xFFFF)

/-- The characters with which no plain text starts. -/
def isIndicator (c : Char) : Bool :=
  ['#', ',', '[', ']', '\x7b', '\x7d', '&', '*', '!', '|', '>', '\'', '\x22', '%', '@',
    '\x60'].contains c

/-! ## What the styles can hold -/

/-- Somewhere in the text a character of the first class stands before one of the
second. -/
def adjacent (p q : Char → Bool) : List Char → Bool
  | a :: b :: cs => (p a && q b) || adjacent p q (b :: cs)
  | _ => false

/-- The text ends in a character of the class. -/
def endsIn (p : Char → Bool) (cs : List Char) : Bool := cs.getLast?.any p

/-- The text starts like markup. -/
def startsAsMarkup : List Char → Bool
  | '-' :: '-' :: '-' :: _ => true
  | '.' :: '.' :: '.' :: _ => true
  | [c] => isIndicator c || c = '?' || c = '-'
  | c :: d :: _ => isIndicator c || ((c = '?' || c = '-') && isSeparation d)
  | [] => false

/-- The text could be read as markup where it is written plain: it starts so, or it
holds a colon before a blank, or a number sign behind one. -/
def readsAsMarkup (cs : List Char) : Bool :=
  startsAsMarkup cs || adjacent (· = ':') isSeparation cs || endsIn (· = ':') cs
    || adjacent isSeparation (· = '#') cs

/-- Every style but double quotes would lose a character. -/
def needsEscapes (cs : List Char) : Bool :=
  !cs.all isPrintable || adjacent (· = ' ') isBreak cs

/-- A line behind a break starts with a blank. -/
def hasIndentedLine (cs : List Char) : Bool := adjacent isBreak (· = ' ') cs

/-- The text can be written plain.  It is not empty. -/
def plainAllowed (cs : List Char) : Bool :=
  !cs.isEmpty && !needsEscapes cs && !cs.any isBreak && cs.head? ≠ some ' '
    && !endsIn (· = ' ') cs && !readsAsMarkup cs

/-- The text can be written between single quotes. -/
def singleQuotedAllowed (cs : List Char) : Bool := !needsEscapes cs && !hasIndentedLine cs

/-- The text can be written as a block.  It is not empty. -/
def blockAllowed (cs : List Char) : Bool :=
  !cs.isEmpty && !needsEscapes cs && !endsIn (· = ' ') cs

/-- How a text is written. -/
inductive ScalarStyle where
  /-- As it is. -/
  | plain
  /-- Between single quotes. -/
  | singleQuoted
  /-- Between double quotes. -/
  | doubleQuoted
  /-- As a block of lines. -/
  | block
deriving DecidableEq, Repr

/-- The style of a text. -/
def ScalarStyle.ofText (text : String) : ScalarStyle :=
  let cs := text.toList
  if cs.contains '\n' then if blockAllowed cs then .block else .doubleQuoted
  else if !resolves text && plainAllowed cs then .plain
  else if singleQuotedAllowed cs then .singleQuoted
  else .doubleQuoted

/-! ## Writing -/

/-- The blanks of an indentation. -/
def indentation (indent : Nat) : List Char := List.replicate indent ' '

/-- The characters between single quotes.  A quote is written twice.  `broken` says
that a line break was written last, so that the next character is indented. -/
def singleQuotedBody (indent : Nat) (broken : Bool) : List Char → List Char
  | [] => if broken then indentation indent else []
  | c :: cs =>
      if isBreak c then c :: singleQuotedBody indent true cs
      else
        (if broken then indentation indent else [])
          ++ (if c = '\'' then ['\'', '\''] else [c]) ++ singleQuotedBody indent false cs

/-- The hexadecimal digits of a number in upper case, `width` of them. -/
def hexDigits (width n : Nat) : List Char :=
  let digits := (Nat.toDigits 16 n).map Char.toUpper
  List.replicate (width - digits.length) '0' ++ digits

/-- What a character is written as behind a backslash. -/
def escapeCode (c : Char) : List Char :=
  match c.toNat with
  | 0x00 => ['0']
  | 0x07 => ['a']
  | 0x08 => ['b']
  | 0x09 => ['t']
  | 0x0A => ['n']
  | 0x0B => ['v']
  | 0x0C => ['f']
  | 0x0D => ['r']
  | 0x1B => ['e']
  | 0x22 => [c]
  | 0x5C => [c]
  | 0x85 => ['N']
  | 0x2028 => ['L']
  | 0x2029 => ['P']
  | n =>
      if n ≤ 0xFF then 'x' :: hexDigits 2 n
      else if n ≤ 0xFFFF then 'u' :: hexDigits 4 n
      else 'U' :: hexDigits 8 n

/-- How a character is written between double quotes. -/
def escaped (c : Char) : List Char :=
  if isPrintable c && !isBreak c && c ≠ '\x22' && c ≠ '\\' then [c] else '\\' :: escapeCode c

/-- The lines of a block, each with its break.  `fresh` says that a line starts.  An
empty line is not indented. -/
def blockBody (indent : Nat) (fresh : Bool) : List Char → List Char
  | [] => []
  | c :: cs =>
      if isBreak c then c :: blockBody indent true cs
      else (if fresh then indentation indent else []) ++ c :: blockBody indent false cs

/-- What stands behind the `|` of a block: the number of blanks a level has, where the
text itself starts with a blank or a break, then `-` where the text does not end in
a break, and `+` where it ends in an empty line. -/
def blockHeader (cs : List Char) : List Char :=
  let hint := if cs.head?.any fun c => c = ' ' || isBreak c then ['2'] else []
  let ending := match cs.reverse with
    | [] => ['-']
    | [c] => if isBreak c then ['+'] else ['-']
    | c :: d :: _ => if !isBreak c then ['-'] else if isBreak d then ['+'] else []
  hint ++ ending

/-- A text at an indentation, and the end of its line. -/
def scalar (indent : Nat) (text : String) : String :=
  let cs := text.toList
  String.ofList <|
    match ScalarStyle.ofText text with
    | .plain => cs ++ ['\n']
    | .singleQuoted => '\'' :: singleQuotedBody indent false cs ++ ['\'', '\n']
    | .doubleQuoted => '\x22' :: cs.flatMap escaped ++ ['\x22', '\n']
    | .block =>
        '|' :: blockHeader cs ++ '\n' :: blockBody indent true cs
          ++ if endsIn isBreak cs then [] else ['\n']

end ImportTidy.Yaml
