import ImportTidy.Text.Slice
import ImportTidy.Token

/-!
# A tokenizer on bytes

The tokens of a line are found character by character (`Token.ofLine`).  `Tokenizer` finds them
byte by byte, one token with each call: it keeps the line at hand with a cursor in bytes, and
reads the next line where the last one is done.

Every part of a line that it takes can fail, where a place is out of range or inside a
character.  So a call may give nothing.
-/

namespace ImportTidy

/-! ## Classes of bytes -/

/-- The bytes that separate tokens. -/
def isBlankByte (b : UInt8) : Bool :=
  b = ' '.toUInt8 || b = '\t'.toUInt8 || b = '\r'.toUInt8

/-- The bytes at which a word stops. -/
def isDelimiterByte (b : UInt8) : Bool :=
  isBlankByte b || b = ','.toUInt8 || b = '#'.toUInt8 || b = '\n'.toUInt8 || b = '('.toUInt8 ||
    b = ')'.toUInt8

/-- Behind these bytes a backslash joins the line to the next one. -/
def joinsBytes (behind : List UInt8) : Bool :=
  behind.all fun b => isBlankByte b || b = '\n'.toUInt8

/-- The byte belongs to a word. -/
def inWordByte (b : UInt8) (behind : List UInt8) : Bool :=
  !isDelimiterByte b && !(b = '\\'.toUInt8 && joinsBytes behind)

/-! ## Lexemes -/

/-- How many bytes of a word there are in front. -/
def wordLength : List UInt8 → Nat
  | [] => 0
  | b :: behind => if inWordByte b behind then 1 + wordLength behind else 0

/-- The kind of a word of these bytes. -/
def kindOfBytes (word : List UInt8) : TokenKind :=
  if word = Utf8.encode "from" then .fromWord
  else if word = Utf8.encode "import" then .importWord
  else if word = Utf8.encode "as" then .asWord
  else .identifier

/-- The kind and the length of the token in front, or none where a backslash joins the line to
the next one. -/
def lexemeOf : List UInt8 → Option (TokenKind × Nat)
  | [] => some (.lineBreak, 0)
  | b :: behind =>
      if b = '\n'.toUInt8 then some (.lineBreak, 1)
      else if b = '#'.toUInt8 then some (.comment, 1)
      else if b = '\\'.toUInt8 ∧ joinsBytes behind = true then none
      else if b = ','.toUInt8 then some (.comma, 1)
      else if b = '('.toUInt8 then some (.leftParen, 1)
      else if b = ')'.toUInt8 then some (.rightParen, 1)
      else
        some (kindOfBytes (b :: behind.take (wordLength behind)), 1 + wordLength behind)

/-! ## One scan -/

/-- The bytes from a place on. -/
def bytesFrom? (bytes : List UInt8) (start : Nat) : Option (List UInt8) :=
  if start ≤ bytes.length then some (bytes.drop start) else none

/-- The place of the next byte that is no blank, or the end. -/
def skipBlanks? (bytes : List UInt8) (start : Nat) : Option Nat :=
  (bytesFrom? bytes start).map fun rest => start + (rest.takeWhile isBlankByte).length

/-- What a scan finds. -/
inductive Scanned where
  /-- A backslash that joins the line to the next one. -/
  | joined
  /-- A token between two places, and the place of what is behind it. -/
  | found (kind : TokenKind) (start stop next : Nat)

/-- A scan of a line from the cursor on. -/
def scanLine (bytes : List UInt8) (cursor : Nat) : Option Scanned := do
  let start ← skipBlanks? bytes cursor
  let rest ← bytesFrom? bytes start
  match lexemeOf rest with
  | none => return .joined
  | some (kind, length) =>
      let next ← skipBlanks? bytes (start + length)
      return .found kind start (start + length) next

/-! ## Calls -/

/-- What a tokenizer has to do with its line. -/
inductive LineState where
  /-- The next line is to be read. -/
  | pending
  /-- There can be more tokens in the line. -/
  | opened
  /-- There is no further line. -/
  | finished
deriving DecidableEq, Repr

/-- A tokenizer between two calls. -/
structure Tokenizer where
  /-- The reads that were not made. -/
  feed : Feed
  /-- The last line that was read. -/
  line : String := ""
  /-- The byte of the line at which the next scan starts. -/
  cursor : Nat := 0
  /-- How many lines were read. -/
  linesRead : Nat := 0
  state : LineState := .pending

namespace Tokenizer

/-- The token that a scan found in a line, and the tokenizer behind it. -/
def give? (feed : Feed) (line : String) (linesRead : Nat) (kind : TokenKind)
    (start stop next : Nat) : Option (Except ReadError Token × Tokenizer) := do
  let text ← sliceOf? line start stop
  return (.ok ⟨kind, text, linesRead, start, next - start⟩,
    ⟨feed, line, next, linesRead, if kind.isBreak then .pending else .opened⟩)

/-- Lines are read until one has a token. -/
def nextLine? (linesRead : Nat) : Feed → Option (Except ReadError Token × Tokenizer)
  | [] => some (.ok (.finish (linesRead + 1)), ⟨[], "", 0, linesRead, .finished⟩)
  | .error e :: feed => some (.error e, ⟨feed, "", 0, linesRead, .pending⟩)
  | .ok line :: feed =>
      match scanLine (Utf8.encode line) 0 with
      | none => none
      | some .joined => nextLine? (linesRead + 1) feed
      | some (.found kind start stop next) => give? feed line (linesRead + 1) kind start stop next

/-- The next token, or the failure of the read that was to give it. -/
def next? (s : Tokenizer) : Option (Except ReadError Token × Tokenizer) :=
  match s.state with
  | .pending => nextLine? s.linesRead s.feed
  | .opened =>
      match scanLine (Utf8.encode s.line) s.cursor with
      | none => none
      | some .joined => nextLine? s.linesRead s.feed
      | some (.found kind start stop next) => give? s.feed s.line s.linesRead kind start stop next
  | .finished => some (.ok (.finish (s.linesRead + 1)), s)

/-- What the call of this number gives, the first of them numbered zero. -/
def nth? (s : Tokenizer) : Nat → Option (Except ReadError Token × Tokenizer)
  | 0 => s.next?
  | k + 1 => s.next?.bind fun given => given.2.nth? k

end Tokenizer

end ImportTidy
