import ImportTidy.Proofs.Grammar.Reading

/-!
# Where the reading breaks off

`Grammar.Reads` gives the statements of an input and its fault.  Where the fault lies in a
statement, `Grammar.Breaks` has what is settled of that statement as well (`Settles`).

* In front of the word `import` nothing is.
* In a bare list an entry is settled if a comma stands behind it.  No other word can: it
  would be the end of the statement.
* In parentheses no entry is.

A reader keeps what is settled in its phase.  The words of a trace settle it
(`Trace.settles`), and they settle nothing else (`settled_of_settles`), since a word that is
no comma completes no entry of a bare list.  So a script breaks off where the grammar says,
with what the grammar says (`breaks_iff`).
-/

namespace ImportTidy

namespace Grammar

/-! ## What is settled -/

/-- Of a statement that starts on this line, and has these words so far, this much is
settled. -/
inductive Settles (line : Nat) : List Word → Option Statement → Prop where
  /-- Nothing behind the word `from`. -/
  | behindFrom {f : Word} (isFrom : f.kind = .fromWord) : Settles line [f] none
  /-- Nothing behind a source. -/
  | behindSource {f : Word} {m : String} (isFrom : f.kind = .fromWord) :
      Settles line [f, ⟨.identifier, m⟩] none
  /-- In a bare list, the entries with a comma behind them. -/
  | bare {o : Origin} {es : List Entry} {lead front own : List Word} (start : SpellsLead o lead)
      (entries : Front es front) (others : ∀ w ∈ own, w.kind ≠ .comma ∧ w.kind ≠ .leftParen) :
      Settles line (lead ++ (front ++ own)) (some ⟨o, line, es⟩)
  /-- In parentheses, no entry. -/
  | enclosed {o : Origin} {lead body : List Word} {left : Word} (start : SpellsLead o lead)
      (isLeft : left.kind = .leftParen) : Settles line (lead ++ left :: body) (some ⟨o, line, []⟩)

/-- The tokens hold these statements, and then comes the fault.  `left` is what is settled of
a statement at hand. -/
inductive Breaks : Bool → TokenStream → List Statement → Option Statement → SyntaxFault → Prop where
  /-- A failed read outside statements. -/
  | unread {fresh : Bool} {n : Nat} {e : ReadError} {rest : TokenStream} :
      Breaks fresh (.failed n e rest) [] none (.unread e)
  /-- A token that starts no statement. -/
  | skip {fresh : Bool} {t : Token} {rest : TokenStream} {S : List Statement}
      {left : Option Statement} {fault : SyntaxFault}
      (starts : fresh = true → t.kind ≠ .importWord ∧ t.kind ≠ .fromWord)
      (others : Breaks t.kind.isBreak rest S left fault) : Breaks fresh (.token t rest) S left fault
  /-- A statement, with the token that ends it. -/
  | statement {first next : Token} {ts : List Token} {behind rest : TokenStream} {o : Origin}
      {es : List Entry} {S : List Statement} {left : Option Statement} {fault : SyntaxFault}
      (spelled : Spells o es (wordsOf (first :: ts)) next.word)
      (ends : behind.next = (.ok next, rest)) (others : Breaks next.kind.isBreak rest S left fault) :
      Breaks true (.ofTokens (first :: ts) behind) (⟨o, first.line, es⟩ :: S) left fault
  /-- A failed read inside a statement. -/
  | cut {first : Token} {ts : List Token} {behind rest : TokenStream} {left : Option Statement}
      {e : ReadError} (pending : Pending (wordsOf (first :: ts)))
      (settles : Settles first.line (wordsOf (first :: ts)) left)
      (fails : behind.next = (.error e, rest)) :
      Breaks true (.ofTokens (first :: ts) behind) [] left (.unread e)
  /-- An offending token. -/
  | refused {first t : Token} {ts : List Token} {behind rest : TokenStream}
      {left : Option Statement} (pending : Pending (wordsOf (first :: ts)))
      (settles : Settles first.line (wordsOf (first :: ts)) left)
      (meets : behind.next = (.ok t, rest)) (offends : Offends (wordsOf (first :: ts)) t.word) :
      Breaks true (.ofTokens (first :: ts) behind) [] left
        (t.refused (wanted (wordsOf (first :: ts))))

/-- What breaks off is read up to its fault. -/
theorem Breaks.reads {fresh : Bool} {tokens : TokenStream} {S : List Statement}
    {left : Option Statement} {fault : SyntaxFault} (h : Breaks fresh tokens S left fault) :
    Reads fresh tokens S (some fault) := by
  induction h with
  | unread => exact .unread
  | skip starts _ ih => exact .skip starts ih
  | statement spelled ends _ ih => exact .statement spelled ends ih
  | cut pending _ fails => exact .cut pending fails
  | refused pending _ meets offends => exact .refused pending meets offends

variable {p q : Phase} {line : Nat} {ws : List Word}

/-! ## A reader settles what the grammar settles -/

theorem Settles.partial {s : Statement} {lead front own rest : List Word} {enclosed : Bool}
    (start : SpellsLead s.origin lead) (atLine : s.line = line)
    (isInner : Inner enclosed rest (front ++ own)) (isFront : Front s.entries front)
    (others : ∀ w ∈ own, w.kind ≠ .comma ∧ w.kind ≠ .leftParen) :
    Settles line (lead ++ rest) (some (if enclosed then { s with entries := [] } else s)) := by
  subst atLine
  cases enclosed with
  | false =>
    cases isInner
    exact .bare start isFront others
  | true =>
    obtain ⟨left, body, isLeft, rfl, -⟩ := isInner
    exact .enclosed start isLeft

theorem SpellsEntry.noComma {e : Entry} {own : List Word} (h : SpellsEntry e own) :
    ∀ w ∈ own, w.kind ≠ .comma ∧ w.kind ≠ .leftParen := by
  cases h with
  | name => simp
  | renamed isAs => simp [isAs]

/-- The words that lead to a phase settle what the reader has settled there. -/
theorem Trace.settles (h : Trace line ws p) : Settles line ws p.settled := by
  cases p with
  | outside fresh => cases h
  | source l =>
    obtain ⟨-, f, isFrom, rfl⟩ := h
    exact .behindFrom isFrom
  | afterSource l m =>
    obtain ⟨-, f, isFrom, rfl⟩ := h
    exact .behindSource isFrom
  | list s place =>
    obtain ⟨atLine, lead, rest, start, trace, rfl⟩ := h
    cases place with
    | opening =>
      obtain ⟨none, rfl⟩ := trace
      have nothing : Inner false [] ([] ++ []) := rfl
      exact .partial start atLine nothing (.inl ⟨none, rfl⟩) (by simp)
    | entry enclosed =>
      obtain ⟨inner, isInner, isFront, -⟩ := trace
      rw [← inner.append_nil] at isInner
      exact .partial start atLine isInner isFront (by simp)
    | named enclosed e =>
      obtain ⟨front, own, isInner, isFront, entry⟩ := trace
      exact .partial start atLine isInner isFront entry.noComma
    | behindAs enclosed n =>
      obtain ⟨front, w, isInner, isFront, isAs⟩ := trace
      exact .partial start atLine isInner isFront (by simp [isAs])
    | closed =>
      -- Whatever stands behind it, a list that is closed is no bare one.
      obtain ⟨o, l, es⟩ := s
      cases atLine
      cases trace ⟨.comma, ""⟩ with
      | bare _ noComma => exact absurd rfl noComma
      | enclosed isLeft => exact .enclosed start isLeft

/-! ## It settles nothing else -/

/-- The place is in a bare list, or in front of the list. -/
def isBare : ListPlace → Bool
  | .opening => true
  | .entry enclosed => !enclosed
  | .named enclosed _ => !enclosed
  | .behindAs enclosed _ => !enclosed
  | .closed => false

theorem settled_of_isBare {place : ListPlace} (bare : isBare place = true) (s : Statement) :
    (Phase.list s place).settled = some s := by
  cases place with
  | opening => rfl
  | entry enclosed =>
    cases enclosed with
    | false => rfl
    | true => cases bare
  | named enclosed e =>
    cases enclosed with
    | false => rfl
    | true => cases bare
  | behindAs enclosed n =>
    cases enclosed with
    | false => rfl
    | true => cases bare
  | closed => cases bare

/-- A word that is no comma and opens no parenthesis leaves the entries of a bare list as they
are. -/
theorem go_of_isBare {s : Statement} {place : ListPlace} (bare : isBare place = true) {w : Word}
    (noComma : w.kind ≠ .comma ∧ w.kind ≠ .leftParen)
    (move : onWord (.list s place) w = .go q) :
    ∃ place', q = .list s place' ∧ isBare place' = true := by
  obtain ⟨kind, text⟩ := w
  cases place with
  | opening =>
    rcases go_opening move with ⟨-, rfl⟩ | ⟨isLeft, -⟩
    · exact ⟨_, rfl, rfl⟩
    · exact absurd isLeft noComma.2
  | entry enclosed =>
    rcases go_entry move with ⟨rfl, -, -⟩ | ⟨-, rfl⟩ | ⟨-, rfl, -, -⟩
    · cases bare
    · exact ⟨_, rfl, bare⟩
    · cases bare
  | named enclosed e =>
    rcases go_named move with ⟨rfl, -, -⟩ | ⟨-, -, rfl⟩ | ⟨isComma, -⟩ | ⟨-, rfl, -⟩
    · cases bare
    · exact ⟨_, rfl, bare⟩
    · exact absurd isComma noComma.1
    · cases bare
  | behindAs enclosed n =>
    rcases go_behindAs move with ⟨rfl, -, -⟩ | ⟨-, rfl⟩
    · cases bare
    · exact ⟨_, rfl, bare⟩
  | closed => cases bare

theorem take_of_isBare {s : Statement} {place : ListPlace} (bare : isBare place = true)
    (others : ∀ w ∈ ws, w.kind ≠ .comma ∧ w.kind ≠ .leftParen)
    (taken : take (.list s place) ws = some q) : q.settled = some s := by
  induction ws generalizing place with
  | nil =>
    cases taken
    exact settled_of_isBare bare s
  | cons w ws ih =>
    obtain ⟨p', move, taken⟩ := take_cons_iff.mp taken
    obtain ⟨first, others⟩ := List.forall_mem_cons.mp others
    obtain ⟨place', rfl, bare'⟩ := go_of_isBare bare first move
    exact ih bare' others taken

/-- Between parentheses nothing but the origin and the line is settled. -/
theorem go_of_not_isBare {s : Statement} {place : ListPlace} (enclosed : isBare place = false)
    {w : Word} (move : onWord (.list s place) w = .go q) :
    ∃ s' place', q = .list s' place' ∧ isBare place' = false ∧ s'.origin = s.origin ∧
      s'.line = s.line := by
  obtain ⟨kind, text⟩ := w
  cases place with
  | opening => cases enclosed
  | entry b =>
    rcases go_entry move with ⟨-, -, rfl⟩ | ⟨-, rfl⟩ | ⟨-, -, -, rfl⟩
    · exact ⟨_, _, rfl, enclosed, rfl, rfl⟩
    · exact ⟨_, _, rfl, enclosed, rfl, rfl⟩
    · exact ⟨_, _, rfl, rfl, rfl, rfl⟩
  | named b e =>
    rcases go_named move with ⟨-, -, rfl⟩ | ⟨-, -, rfl⟩ | ⟨-, rfl⟩ | ⟨-, -, rfl⟩
    · exact ⟨_, _, rfl, enclosed, rfl, rfl⟩
    · exact ⟨_, _, rfl, enclosed, rfl, rfl⟩
    · exact ⟨_, _, rfl, enclosed, rfl, rfl⟩
    · exact ⟨_, _, rfl, rfl, rfl, rfl⟩
  | behindAs b n =>
    rcases go_behindAs move with ⟨-, -, rfl⟩ | ⟨-, rfl⟩
    · exact ⟨_, _, rfl, enclosed, rfl, rfl⟩
    · exact ⟨_, _, rfl, enclosed, rfl, rfl⟩
  | closed => cases move

theorem settled_of_not_isBare {place : ListPlace} (enclosed : isBare place = false)
    (s : Statement) : (Phase.list s place).settled = some { s with entries := [] } := by
  cases place with
  | opening => cases enclosed
  | entry b =>
    cases b with
    | false => cases enclosed
    | true => rfl
  | named b e =>
    cases b with
    | false => cases enclosed
    | true => rfl
  | behindAs b n =>
    cases b with
    | false => cases enclosed
    | true => rfl
  | closed => rfl

theorem take_of_not_isBare {s : Statement} {place : ListPlace} (enclosed : isBare place = false)
    (taken : take (.list s place) ws = some q) :
    q.settled = some { s with entries := [] } := by
  induction ws generalizing s place with
  | nil =>
    cases taken
    exact settled_of_not_isBare enclosed s
  | cons w ws ih =>
    obtain ⟨p', move, taken⟩ := take_cons_iff.mp taken
    obtain ⟨s', place', rfl, enclosed', origin, atLine⟩ := go_of_not_isBare enclosed move
    rw [ih enclosed' taken, origin, atLine]

/-- Entries with a comma behind each are complete. -/
theorem take_front {s : Statement} (empty : s.entries = []) {es : List Entry}
    (h : Front es ws) :
    ∃ place, isBare place = true ∧
      take (.list s .opening) ws = some (.list { s with entries := es } place) := by
  rcases h with ⟨rfl, rfl⟩ | ⟨front, comma, entries, isComma, rfl⟩
  · refine ⟨.opening, rfl, ?_⟩
    rw [← empty]
    rfl
  · obtain ⟨init, last, rfl, taken⟩ := take_entries (s := s) entries (.inr ⟨rfl, rfl⟩)
    refine ⟨.entry false, rfl, ?_⟩
    rw [take_append taken, take_cons_of_go (go_comma isComma), empty]
    rfl

/-- A reader has settled what its words settle, and nothing else. -/
theorem settled_of_settles {first : Token} {ts : List Token} {left : Option Statement}
    (reached : Reached first ts p) (h : Settles first.line (wordsOf (first :: ts)) left) :
    p.settled = left := by
  obtain ⟨p₀, -, move, taken⟩ := reached
  generalize words : wordsOf (first :: ts) = all at h
  cases h with
  | behindFrom isFrom =>
    obtain ⟨rfl, none⟩ := List.cons.inj words
    cases (step_keyword.2 isFrom).symm.trans move
    rw [show wordsOf ts = [] from none] at taken
    cases taken
    rfl
  | behindSource isFrom =>
    obtain ⟨rfl, source⟩ := List.cons.inj words
    cases (step_keyword.2 isFrom).symm.trans move
    rw [show wordsOf ts = _ from source] at taken
    cases taken
    rfl
  | @bare o es lead front own start entries others =>
    obtain ⟨p₁, -, move', behind⟩ := take_lead start words
    cases move'.symm.trans move
    obtain ⟨place, bare, complete⟩ := take_front (s := ⟨o, first.line, []⟩) rfl entries
    have rest : take (.list ⟨o, first.line, es⟩ place) own = some p := by
      rw [← take_append complete, ← behind]
      exact taken
    exact take_of_isBare bare others rest
  | @enclosed o lead body left start isLeft =>
    obtain ⟨p₁, -, move', behind⟩ := take_lead start words
    cases move'.symm.trans move
    have rest : take (.list ⟨o, first.line, []⟩ (.entry true)) body = some p := by
      rw [← take_cons_of_go (go_left isLeft), ← behind]
      exact taken
    exact take_of_not_isBare rfl rest

/-! ## Scripts -/

/-- What breaks off is read so. -/
theorem read_of_breaks {fresh : Bool} {tokens : TokenStream} {S : List Statement}
    {left : Option Statement} {fault : SyntaxFault} (h : Breaks fresh tokens S left fault) :
    Script.read (.outside fresh) tokens = ⟨S, .broken left fault⟩ := by
  induction h with
  | unread => rfl
  | @skip fresh t rest S left fault starts _ ih =>
    rw [Script.read, step_of_skip starts]
    exact ih
  | @statement first next ts behind rest o es S left fault spelled ends _ ih =>
    obtain ⟨p₀, q, inside, move, taken, completes⟩ := reached_of_spells spelled
    have reached : Reached first ts q := ⟨p₀, inside, move, taken⟩
    rw [← step_eq_onWord reached.trace.inside] at completes
    rw [reached.read, (read_next ends).1 _ _ completes]
    exact congrArg (Script.cons _) ih
  | @cut first ts behind rest left e pending settles fails =>
    obtain ⟨p, reached⟩ := reached_of_pending pending
    rw [reached.read, read_of_fails fails, Script.broken, settled_of_settles reached settles]
  | @refused first t ts behind rest left pending settles meets offends =>
    obtain ⟨p, reached⟩ := reached_of_pending pending
    obtain ⟨e, refused⟩ := (offends_iff reached).mp offends
    rw [← reached.trace.refuse refused]
    rw [← step_eq_onWord reached.trace.inside] at refused
    rw [reached.read, (read_next meets).2 _ refused, Script.broken,
      settled_of_settles reached settles]

/-- What is read up to a fault breaks off there. -/
theorem breaks_of_reads {fresh : Bool} {tokens : TokenStream} {S : List Statement}
    {fault : SyntaxFault} (h : Reads fresh tokens S (some fault)) :
    ∃ left, Breaks fresh tokens S left fault := by
  generalize isFault : some fault = ending at h
  induction h with
  | finish => cases isFault
  | unread =>
    cases isFault
    exact ⟨_, .unread⟩
  | skip starts _ ih =>
    obtain ⟨left, others⟩ := ih isFault
    exact ⟨left, .skip starts others⟩
  | statement spelled ends _ ih =>
    obtain ⟨left, others⟩ := ih isFault
    exact ⟨left, .statement spelled ends others⟩
  | cut pending fails =>
    cases isFault
    obtain ⟨p, reached⟩ := reached_of_pending pending
    exact ⟨_, .cut pending reached.trace.settles fails⟩
  | refused pending meets offends =>
    cases isFault
    obtain ⟨p, reached⟩ := reached_of_pending pending
    exact ⟨_, .refused pending reached.trace.settles meets offends⟩

/-- A script breaks off where the grammar says, with what the grammar says. -/
theorem breaks_iff {feed : Feed} {S : List Statement} {left : Option Statement}
    {fault : SyntaxFault} :
    Breaks true (.ofFeed feed) S left fault ↔ Script.ofFeed feed = ⟨S, .broken left fault⟩ := by
  refine ⟨read_of_breaks, fun script => ?_⟩
  have reads : Reads true (.ofFeed feed) S (some fault) := by
    rw [reads_iff, script]
    exact ⟨rfl, rfl⟩
  obtain ⟨left', breaks⟩ := breaks_of_reads reads
  cases (read_of_breaks breaks).symm.trans script
  exact breaks

end Grammar

end ImportTidy
