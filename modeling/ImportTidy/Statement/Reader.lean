import ImportTidy.Statement

/-!
# Reading statements

A reader goes through the tokens of a source once, and its `Phase` between two
tokens is all it knows.  `Phase.step` says what a token does: the reader goes on
in another phase, a statement is complete, or the token is a fault.

A statement starts at `import` or `from` where the token before is a line break
or a comment, or where there is no token before.  All other tokens outside
statements are passed over, since only imports are read.

The token behind a list ends the statement and is used up, whatever it is.  It
still counts as the token before the next one.  So after `import a import b` the
second `import` starts nothing, and the end of the line lets a statement start.

Between parentheses line breaks and comments are passed over.
-/

namespace ImportTidy

/-- Where a reader stands inside a list. -/
inductive ListPlace where
  /-- Before the list: a name opens a bare list, a parenthesis the other. -/
  | opening
  /-- Before an entry. -/
  | entry (enclosed : Bool)
  /-- Behind the name of an entry, or behind the whole of it if it has its other
  name. -/
  | named (enclosed : Bool) (e : Entry)
  /-- Behind the word `as`. -/
  | behindAs (enclosed : Bool) (name : String)
  /-- Behind the closing parenthesis. -/
  | closed
deriving DecidableEq, Repr

/-- Where a reader stands between two tokens. -/
inductive Phase where
  /-- Outside statements.  `fresh` says that a statement may start. -/
  | outside (fresh : Bool)
  /-- Behind the word `from` on this line. -/
  | source (line : Nat)
  /-- Behind a source. -/
  | afterSource (line : Nat) (module : String)
  /-- At the list of the statement, whose entries so far are complete. -/
  | list (statement : Statement) (place : ListPlace)
deriving DecidableEq, Repr

/-- Before the first token. -/
def Phase.start : Phase := .outside true

/-- What a token does. -/
inductive Move where
  /-- Go on in this phase. -/
  | go (phase : Phase)
  /-- The statement is complete.  Go on in this phase. -/
  | complete (statement : Statement) (phase : Phase)
  /-- The token is a fault. -/
  | refuse (expected : Expectation)
deriving DecidableEq, Repr

/-- What a bare list of the statement wants before an entry, and every list before
its first token. -/
def Statement.entryWanted (s : Statement) : Expectation :=
  match s.origin with
  | .plain => .moduleToImport
  | .source _ => .importedName

/-- The statement with one more entry. -/
def Statement.add (s : Statement) (e : Entry) : Statement := { s with entries := s.entries ++ [e] }

/-- What a token does behind an entry of the statement. -/
def Phase.stepBehindEntry (s : Statement) (e : Entry) : Bool → TokenKind → Move
  | true, .comma => .go (.list (s.add e) (.entry true))
  | true, .rightParen => .go (.list (s.add e) .closed)
  | true, _ => .refuse .separator
  | false, .comma => .go (.list (s.add e) (.entry false))
  | false, kind => .complete (s.add e) (.outside kind.isBreak)

/-- What a token does inside the list of a statement. -/
def Phase.stepList (s : Statement) (place : ListPlace) (kind : TokenKind) (text : String) : Move :=
  match place with
  | .opening =>
      match kind with
      | .identifier => .go (.list s (.named false { name := text }))
      | .leftParen => .go (.list s (.entry true))
      | _ => .refuse s.entryWanted
  | .entry enclosed =>
      if enclosed && kind.isBreak then .go (.list s place)
      else
        match kind with
        | .identifier => .go (.list s (.named enclosed { name := text }))
        | .rightParen =>
            if enclosed && !s.entries.isEmpty then .go (.list s .closed)
            else .refuse (if enclosed then .importedName else s.entryWanted)
        | _ => .refuse (if enclosed then .importedName else s.entryWanted)
  | .named enclosed e =>
      if enclosed && kind.isBreak then .go (.list s place)
      else if kind = .asWord ∧ e.asName = none then .go (.list s (.behindAs enclosed e.name))
      else Phase.stepBehindEntry s e enclosed kind
  | .behindAs enclosed name =>
      if enclosed && kind.isBreak then .go (.list s place)
      else
        match kind with
        | .identifier => .go (.list s (.named enclosed { name := name, asName := some text }))
        | _ => .refuse .asName
  | .closed => .complete s (.outside kind.isBreak)

/-- What a token does. -/
def Phase.step (p : Phase) (t : Token) : Move :=
  match p with
  | .outside fresh =>
      if fresh && t.kind = .importWord then .go (.list ⟨.plain, t.line, []⟩ .opening)
      else if fresh && t.kind = .fromWord then .go (.source t.line)
      else .go (.outside t.kind.isBreak)
  | .source line =>
      match t.kind with
      | .identifier => .go (.afterSource line t.text)
      | _ => .refuse .moduleToImportFrom
  | .afterSource line module =>
      match t.kind with
      | .importWord => .go (.list ⟨.source module, line, []⟩ .opening)
      | _ => .refuse .importWord
  | .list s place => Phase.stepList s place t.kind t.text

/-- What is settled of the statement at hand. -/
def Phase.settled : Phase → Option Statement
  | .outside _ => none
  | .source _ => none
  | .afterSource _ _ => none
  | .list s place =>
      match place with
      | .opening => some s
      | .entry enclosed => some (if enclosed then { s with entries := [] } else s)
      | .named enclosed _ => some (if enclosed then { s with entries := [] } else s)
      | .behindAs enclosed _ => some (if enclosed then { s with entries := [] } else s)
      | .closed => some { s with entries := [] }

/-- The script of a fault that is met in a phase. -/
def Script.broken (p : Phase) (fault : SyntaxFault) : Script := ⟨[], .broken p.settled fault⟩

/-- The fault of a token that was refused. -/
def Token.refused (t : Token) (expected : Expectation) : SyntaxFault :=
  .unexpected t.line t.column expected t.kind

/-- The script of the tokens behind a phase.  The reading stops at the first failed
read. -/
def Script.read (p : Phase) : TokenStream → Script
  | .failed _ e _ => .broken p (.unread e)
  | .finish line =>
      match p.step (.finish line) with
      | .go _ => ⟨[], .complete⟩
      | .complete s _ => ⟨[s], .complete⟩
      | .refuse expected => .broken p ((Token.finish line).refused expected)
  | .token t rest =>
      match p.step t with
      | .go q => Script.read q rest
      | .complete s q => .cons s (Script.read q rest)
      | .refuse expected => .broken p (t.refused expected)

/-- The script of a feed. -/
def Script.ofFeed (feed : Feed) : Script := Script.read .start (.ofFeed feed)

/-- At the end of the input a reader never waits for another token: it goes on only
outside statements. -/
theorem Phase.outside_of_step_finish {p q : Phase} {line : Nat}
    (h : p.step (.finish line) = .go q) : ∃ fresh, p = .outside fresh := by
  cases p with
  | outside fresh => exact ⟨fresh, rfl⟩
  | source line => simp [Phase.step, Token.finish] at h
  | afterSource line module => simp [Phase.step, Token.finish] at h
  | list s place =>
    cases place with
    | opening => simp [Phase.step, Phase.stepList, Token.finish] at h
    | entry enclosed => simp [Phase.step, Phase.stepList, Token.finish, TokenKind.isBreak] at h
    | named enclosed e =>
      cases enclosed <;>
        simp [Phase.step, Phase.stepList, Phase.stepBehindEntry, Token.finish,
          TokenKind.isBreak] at h
    | behindAs enclosed name =>
      simp [Phase.step, Phase.stepList, Token.finish, TokenKind.isBreak] at h
    | closed => simp [Phase.step, Phase.stepList, Token.finish] at h

end ImportTidy
