import ImportTidy.Feed

/-!
# Tokens

A line is split into tokens.  Three words are keywords, three characters are
punctuation, and the end of a line, the start of a comment and the end of the
input are tokens of their own.  Every other run of characters is an identifier.

Blanks separate tokens and belong to none.  A comment's token is its `#` alone:
the rest of the line is not read.

Columns count bytes of the UTF-8 form from the start of the line, and lines
count from one.
-/

namespace ImportTidy

/-- The kind of a token. -/
inductive TokenKind where
  /-- The word `from`. -/
  | fromWord
  /-- The word `import`. -/
  | importWord
  /-- The word `as`. -/
  | asWord
  /-- A comma. -/
  | comma
  /-- An opening parenthesis. -/
  | leftParen
  /-- A closing parenthesis. -/
  | rightParen
  /-- Any other word. -/
  | identifier
  /-- The end of a line. -/
  | lineBreak
  /-- The `#` that starts a comment. -/
  | comment
  /-- The end of the input. -/
  | finish
deriving DecidableEq, Repr

/-- How a message names a kind. -/
def TokenKind.describe : TokenKind → String
  | .fromWord => "'from'"
  | .importWord => "'import'"
  | .asWord => "'as'"
  | .comma => "','"
  | .leftParen => "'('"
  | .rightParen => "')'"
  | .identifier => "identifier"
  | .lineBreak => "newline"
  | .comment => "comment"
  | .finish => "end of input"

/-- The kinds that a parenthesised list passes over. -/
def TokenKind.isBreak : TokenKind → Bool
  | .lineBreak => true
  | .comment => true
  | _ => false

/-- A token with its place. -/
structure Token where
  /-- The kind. -/
  kind : TokenKind
  /-- The characters it covers. -/
  text : String
  /-- The line it stands on. -/
  line : Nat
  /-- The byte of the line at which it starts. -/
  column : Nat
  /-- Bytes from its start to the next character that is no blank. -/
  stride : Nat
deriving DecidableEq, Repr

/-- The token at the end of an input, on the line behind the last one. -/
def Token.finish (line : Nat) : Token := ⟨.finish, "", line, 0, 0⟩

/-! ## Classes of characters -/

/-- The characters that separate tokens and belong to none. -/
def isBlank (c : Char) : Bool := c = ' ' || c = '\t' || c = '\r'

/-- The characters at which a word stops. -/
def isDelimiter (c : Char) : Bool :=
  isBlank c || c = ',' || c = '#' || c = '\n' || c = '(' || c = ')'

/-- Behind these characters a backslash joins the line to the next one: blanks and
the newline only. -/
def joinsLines (behind : List Char) : Bool := behind.all fun c => isBlank c || c = '\n'

/-- The character belongs to a word: it is no delimiter, and no backslash that
joins lines. -/
def inWord (c : Char) (behind : List Char) : Bool :=
  !isDelimiter c && !(c = '\\' && joinsLines behind)

/-- The kind of a word. -/
def wordKind (word : String) : TokenKind :=
  if word = "from" then .fromWord
  else if word = "import" then .importWord
  else if word = "as" then .asWord
  else .identifier

/-- The number of blanks in front. -/
def leadingBlanks (cs : List Char) : Nat := (cs.takeWhile isBlank).length

/-! ## The tokens of a line -/

/-- The part of a word read so far. -/
structure PartialWord where
  /-- The column of its first character. -/
  column : Nat
  /-- Its characters, newest first. -/
  reversed : List Char

/-- The word with one more character, which stands at `column` if it is the
first. -/
def PartialWord.extend (word : Option PartialWord) (column : Nat) (c : Char) : PartialWord :=
  match word with
  | none => ⟨column, [c]⟩
  | some w => ⟨w.column, c :: w.reversed⟩

/-- The token of a word that ends before the characters `behind`, if a word was
begun. -/
def PartialWord.close (word : Option PartialWord) (line : Nat) (behind : List Char) : List Token :=
  match word with
  | none => []
  | some w =>
      let text := String.ofList w.reversed.reverse
      [⟨wordKind text, text, line, w.column, text.utf8ByteSize + leadingBlanks behind⟩]

/-- The tokens of the rest of a line.  `word` is the word that the characters
before `column` leave open. -/
def lineTokens (line : Nat) (word : Option PartialWord) (column : Nat) : List Char → List Token
  | [] => PartialWord.close word line [] ++ [⟨.lineBreak, "", line, column, 0⟩]
  | c :: cs =>
      if inWord c cs then
        lineTokens line (some (PartialWord.extend word column c)) (column + c.utf8Size) cs
      else
        PartialWord.close word line (c :: cs) ++
          if isBlank c then lineTokens line none (column + 1) cs
          else if c = '\n' then [⟨.lineBreak, "\n", line, column, 1 + leadingBlanks cs⟩]
          else if c = '#' then [⟨.comment, "#", line, column, 1 + leadingBlanks cs⟩]
          else if c = '\\' then []
          else
            let kind : TokenKind :=
              if c = ',' then .comma else if c = '(' then .leftParen else .rightParen
            ⟨kind, String.singleton c, line, column, 1 + leadingBlanks cs⟩ ::
              lineTokens line none (column + 1) cs

/-- The tokens of a line. -/
def Token.ofLine (line : Nat) (text : String) : List Token := lineTokens line none 0 text.toList

/-! ## The tokens of an input -/

/-- The tokens of an input in reading order.  A failed read stands where it
happened, with the number of lines read before it, and more may follow. -/
inductive TokenStream where
  /-- The end of the input, which is on this line. -/
  | finish (line : Nat)
  /-- A token. -/
  | token (t : Token) (rest : TokenStream)
  /-- A failed read. -/
  | failed (linesRead : Nat) (error : ReadError) (rest : TokenStream)

/-- Tokens in front of a stream. -/
def TokenStream.ofTokens (front : List Token) (rest : TokenStream) : TokenStream :=
  front.foldr .token rest

/-- The tokens of a feed, behind `linesRead` lines. -/
def TokenStream.after (linesRead : Nat) : Feed → TokenStream
  | [] => .finish (linesRead + 1)
  | .error e :: feed => .failed linesRead e (TokenStream.after linesRead feed)
  | .ok text :: feed =>
      .ofTokens (Token.ofLine (linesRead + 1) text) (TokenStream.after (linesRead + 1) feed)

/-- The tokens of a feed. -/
def TokenStream.ofFeed (feed : Feed) : TokenStream := TokenStream.after 0 feed

/-- The next token, or the failure of the read that was to give it.  The end of the
input comes again and again. -/
def TokenStream.next : TokenStream → Except ReadError Token × TokenStream
  | .finish line => (.ok (.finish line), .finish line)
  | .token t rest => (.ok t, rest)
  | .failed _ e rest => (.error e, rest)

/-- The next token that is no line break and no comment. -/
def TokenStream.nextSignificant : TokenStream → Except ReadError Token × TokenStream
  | .finish line => (.ok (.finish line), .finish line)
  | .token t rest => if t.kind.isBreak then rest.nextSignificant else (.ok t, rest)
  | .failed _ e rest => (.error e, rest)

end ImportTidy
