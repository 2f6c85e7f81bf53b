import ImportTidy.Statement.Reader

/-!
# The grammar of import statements

The grammar reads the *words* of a token sequence, which are the kinds and texts of
the tokens without their places.

```text
statement  ::=  'import' list  |  'from' identifier 'import' list
list       ::=  entries  |  '(' entries [','] ')'
entries    ::=  entry (',' entry)*
entry      ::=  identifier ['as' identifier]
```

Line breaks and comments are passed over between the parentheses and nowhere else.
`Spells` relates a statement to its words and to the word behind them, which ends the
statement whatever it is.  Behind a bare list it is no comma, and no `as` that could
give the last entry its other name.

A word sequence is *pending* if it starts the words of a statement (`Pending`).  A
word *offends* behind a pending sequence if it neither goes on nor ends it
(`Offends`).  `wanted` names what the grammar allows there.

`Reads` relates the tokens of an input to its statements and to its fault.  A
statement starts at `import` or `from`, where the token before is a line break or a
comment, or where there is none.  The word that ends a statement counts as the one
before the next.  Every other token outside statements is passed over.  The first
failed read is the fault, and so is the first offending token, whichever comes first.
-/

namespace ImportTidy

/-- What the grammar reads of a token. -/
structure Word where
  /-- The kind. -/
  kind : TokenKind
  /-- The characters. -/
  text : String
deriving DecidableEq, Repr

/-- The word of a token. -/
def Token.word (t : Token) : Word := ⟨t.kind, t.text⟩

/-- The words of tokens. -/
def wordsOf (ts : List Token) : List Word := ts.map Token.word

namespace Grammar

/-! ## Statements -/

/-- The words are the entry. -/
inductive SpellsEntry : Entry → List Word → Prop where
  | name {n : String} : SpellsEntry { name := n } [⟨.identifier, n⟩]
  | renamed {n a : String} {w : Word} (isAs : w.kind = .asWord) :
      SpellsEntry { name := n, asName := some a } [⟨.identifier, n⟩, w, ⟨.identifier, a⟩]

/-- The words are the entries with a comma between each two. -/
inductive SpellsEntries : List Entry → List Word → Prop where
  | one {e : Entry} {own : List Word} (entry : SpellsEntry e own) : SpellsEntries [e] own
  | more {es : List Entry} {ws : List Word} {comma : Word} {e : Entry} {own : List Word}
      (front : SpellsEntries es ws) (isComma : comma.kind = .comma) (entry : SpellsEntry e own) :
      SpellsEntries (es ++ [e]) (ws ++ comma :: own)

/-- Words without the line breaks and comments among them. -/
def withoutBreaks (ws : List Word) : List Word := ws.filter fun w => !w.kind.isBreak

/-- The words are a list of the entries, and `next` is the word behind it. -/
inductive SpellsList : List Entry → List Word → Word → Prop where
  | bare {es : List Entry} {ws : List Word} {next : Word} (entries : SpellsEntries es ws)
      (noComma : next.kind ≠ .comma)
      (noAs : next.kind = .asWord → ∃ e, es.getLast? = some e ∧ e.asName ≠ none) :
      SpellsList es ws next
  | enclosed {es : List Entry} {inner trailing body : List Word} {left right next : Word}
      (isLeft : left.kind = .leftParen) (entries : SpellsEntries es inner)
      (isTrailing : trailing = [] ∨ ∃ comma : Word, comma.kind = .comma ∧ trailing = [comma])
      (between : withoutBreaks body = inner ++ trailing) (isRight : right.kind = .rightParen) :
      SpellsList es (left :: body ++ [right]) next

/-- The words in front of the list of a statement. -/
inductive SpellsLead : Origin → List Word → Prop where
  | plain {w : Word} (isImport : w.kind = .importWord) : SpellsLead .plain [w]
  | source {f w : Word} {m : String} (isFrom : f.kind = .fromWord)
      (isImport : w.kind = .importWord) : SpellsLead (.source m) [f, ⟨.identifier, m⟩, w]

/-- The words are a statement with this origin and these entries, and `next` is the
word behind it. -/
inductive Spells : Origin → List Entry → List Word → Word → Prop where
  | intro {o : Origin} {es : List Entry} {lead ws : List Word} {next : Word}
      (start : SpellsLead o lead) (list : SpellsList es ws next) : Spells o es (lead ++ ws) next

/-! ## Faults -/

/-- The words start a statement, or are one that no word has ended yet. -/
def Pending (ws : List Word) : Prop := ∃ o es more next, Spells o es (ws ++ more) next

/-- The word neither goes on with the statement that the words start, nor ends it. -/
def Offends (ws : List Word) (w : Word) : Prop :=
  ¬ Pending (ws ++ [w]) ∧ ¬ ∃ o es, Spells o es ws w

/-- The kinds of words without the line breaks and comments among them. -/
def kindsOf (ws : List Word) : List TokenKind := (withoutBreaks ws).map Word.kind

/-- What is wanted behind a word of this kind where not every word is allowed.
`isFrom` says that the statement starts at `from`, and `enclosed` that its list stands
in parentheses. -/
def wantedBehind (isFrom enclosed : Bool) : TokenKind → Expectation
  | .fromWord => .moduleToImportFrom
  | .asWord => .asName
  | .identifier => if enclosed then .separator else .importWord
  | _ => if isFrom || enclosed then .importedName else .moduleToImport

/-- What the grammar wants behind pending words. -/
def wanted (ws : List Word) : Expectation :=
  wantedBehind ((kindsOf ws).head? = some .fromWord) (.leftParen ∈ kindsOf ws)
    ((kindsOf ws).getLast?.getD .importWord)

/-! ## Inputs -/

/-- The tokens hold these statements, and the fault is the first there is.  `fresh`
says that a statement may start at the first token. -/
inductive Reads : Bool → TokenStream → List Statement → Option SyntaxFault → Prop where
  /-- The end of the input. -/
  | finish {fresh : Bool} {line : Nat} : Reads fresh (.finish line) [] none
  /-- A failed read outside statements. -/
  | unread {fresh : Bool} {n : Nat} {e : ReadError} {rest : TokenStream} :
      Reads fresh (.failed n e rest) [] (some (.unread e))
  /-- A token that starts no statement. -/
  | skip {fresh : Bool} {t : Token} {rest : TokenStream} {ss : List Statement}
      {fault : Option SyntaxFault}
      (starts : fresh = true → t.kind ≠ .importWord ∧ t.kind ≠ .fromWord)
      (others : Reads t.kind.isBreak rest ss fault) : Reads fresh (.token t rest) ss fault
  /-- A statement, with the token that ends it. -/
  | statement {first next : Token} {ts : List Token} {behind rest : TokenStream} {o : Origin}
      {es : List Entry} {ss : List Statement} {fault : Option SyntaxFault}
      (spelled : Spells o es (wordsOf (first :: ts)) next.word)
      (ends : behind.next = (.ok next, rest))
      (others : Reads next.kind.isBreak rest ss fault) :
      Reads true (.ofTokens (first :: ts) behind) (⟨o, first.line, es⟩ :: ss) fault
  /-- A failed read inside a statement. -/
  | cut {first : Token} {ts : List Token} {behind rest : TokenStream} {e : ReadError}
      (pending : Pending (wordsOf (first :: ts))) (fails : behind.next = (.error e, rest)) :
      Reads true (.ofTokens (first :: ts) behind) [] (some (.unread e))
  /-- An offending token. -/
  | refused {first t : Token} {ts : List Token} {behind rest : TokenStream}
      (pending : Pending (wordsOf (first :: ts))) (meets : behind.next = (.ok t, rest))
      (offends : Offends (wordsOf (first :: ts)) t.word) :
      Reads true (.ofTokens (first :: ts) behind) []
        (some (t.refused (wanted (wordsOf (first :: ts)))))

/-! ## Joining and naming parts -/

@[simp] theorem withoutBreaks_append (ws ws' : List Word) :
    withoutBreaks (ws ++ ws') = withoutBreaks ws ++ withoutBreaks ws' := by
  simp [withoutBreaks]

/-- Entries behind entries and a comma. -/
theorem SpellsEntries.append {es es' : List Entry} {ws ws' : List Word} {comma : Word}
    (h : SpellsEntries es ws) (isComma : comma.kind = .comma) (h' : SpellsEntries es' ws') :
    SpellsEntries (es ++ es') (ws ++ comma :: ws') := by
  induction h' with
  | one entry => exact .more h isComma entry
  | more _ isComma' entry ih =>
    have longer := SpellsEntries.more ih isComma' entry
    simpa using longer

/-- A statement has entries. -/
theorem SpellsEntries.ne_nil {es : List Entry} {ws : List Word} (h : SpellsEntries es ws) :
    es ≠ [] := by
  cases h <;> simp

theorem SpellsList.ne_nil {es : List Entry} {ws : List Word} {next : Word}
    (h : SpellsList es ws next) : es ≠ [] := by
  cases h with
  | bare entries => exact entries.ne_nil
  | enclosed _ entries => exact entries.ne_nil

theorem Spells.ne_nil {o : Origin} {es : List Entry} {ws : List Word} {next : Word}
    (h : Spells o es ws next) : es ≠ [] := by
  cases h with
  | intro _ list => exact list.ne_nil

end Grammar

end ImportTidy
