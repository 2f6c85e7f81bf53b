import ImportTidy.Session
import ImportTidy.Proofs.Grammar.Trace

/-!
# Readers follow the grammar

What a reader reads is spelled, since its trace is kept by every move.  The other
direction is `reached_of_spells`: the words of a statement take a reader to where the
word behind them completes it.  So a reader is inside a statement exactly where the words
so far are pending, and it refuses exactly the words that offend (`offends_iff`).

`reads_iff` puts the moves together.  The script of a feed has the statements and the
fault that the grammar gives.
-/

namespace ImportTidy

/-- The fault at which the reading ended, if it ended at one. -/
def Ending.fault? : Ending → Option SyntaxFault
  | .complete => none
  | .broken _ fault => some fault

namespace Grammar

variable {s : Statement} {p q : Phase}

/-! ## What is spelled is read -/

/-- The place waits for an entry. -/
def Awaits (enclosed : Bool) (place : ListPlace) : Prop :=
  place = .entry enclosed ∨ enclosed = false ∧ place = .opening

theorem take_entry {e : Entry} {own : List Word} (h : SpellsEntry e own) {enclosed : Bool}
    {place : ListPlace} (awaits : Awaits enclosed place) :
    take (.list s place) own = some (.list s (.named enclosed e)) := by
  have named : ∀ n, onWord (.list s place) ⟨.identifier, n⟩ =
      .go (.list s (.named enclosed { name := n })) := by
    intro n
    rcases awaits with rfl | ⟨rfl, rfl⟩
    · cases enclosed <;> rfl
    · rfl
  cases h with
  | name => rw [take_cons_of_go (named _), take]
  | @renamed n a w isAs =>
    have behindAs : onWord (.list s (.named enclosed { name := n })) w =
        .go (.list s (.behindAs enclosed n)) := by
      cases enclosed <;> simp [onWord, Phase.step, Phase.stepList, isAs, TokenKind.isBreak]
    have renamed : onWord (.list s (.behindAs enclosed n)) ⟨.identifier, a⟩ =
        .go (.list s (.named enclosed { name := n, asName := some a })) := by
      cases enclosed <;> rfl
    rw [take_cons_of_go (named n), take_cons_of_go behindAs, take_cons_of_go renamed, take]

/-- A comma behind an entry completes the entry. -/
theorem go_comma {enclosed : Bool} {e : Entry} {comma : Word} (isComma : comma.kind = .comma) :
    onWord (.list s (.named enclosed e)) comma = .go (.list (s.add e) (.entry enclosed)) := by
  cases enclosed <;>
    simp [onWord, Phase.step, Phase.stepList, Phase.stepBehindEntry, isComma, TokenKind.isBreak]

/-- Entries lead behind the last one, with those before it complete. -/
theorem take_entries {es : List Entry} {ws : List Word} (h : SpellsEntries es ws)
    {enclosed : Bool} {place : ListPlace} (awaits : Awaits enclosed place) :
    ∃ front last, es = front ++ [last] ∧
      take (.list s place) ws =
        some (.list { s with entries := s.entries ++ front } (.named enclosed last)) := by
  induction h with
  | @one e own entry =>
    exact ⟨[], e, rfl, by simpa using take_entry entry awaits⟩
  | @more es ws comma e own _ isComma entry ih =>
    obtain ⟨front, last, rfl, taken⟩ := ih
    refine ⟨front ++ [last], e, rfl, ?_⟩
    rw [take_append taken, take_cons_of_go (go_comma isComma),
      take_entry entry (.inl rfl)]
    simp [Statement.add]

/-- The reader passes over line breaks and comments. -/
def skipsBreaks : Phase → Bool
  | .list _ (.entry true) => true
  | .list _ (.named true _) => true
  | .list _ (.behindAs true _) => true
  | _ => false

theorem onWord_break (h : skipsBreaks p = true) {w : Word} (isBreak : w.kind.isBreak = true) :
    onWord p w = .go p := by
  unfold skipsBreaks at h
  split at h <;> simp_all [onWord, Phase.step, Phase.stepList]

/-- Between parentheses a reader goes on there or behind the closing one. -/
theorem skipsBreaks_go (h : skipsBreaks p = true) {w : Word} (move : onWord p w = .go q) :
    skipsBreaks q = true ∨ ∃ s, q = .list s .closed := by
  unfold skipsBreaks at h
  split at h
  · rcases go_entry move with ⟨-, -, rfl⟩ | ⟨-, rfl⟩ | ⟨-, -, -, rfl⟩
    · exact .inl rfl
    · exact .inl rfl
    · exact .inr ⟨_, rfl⟩
  · rcases go_named move with ⟨-, -, rfl⟩ | ⟨-, -, rfl⟩ | ⟨-, rfl⟩ | ⟨-, -, rfl⟩
    · exact .inl rfl
    · exact .inl rfl
    · exact .inl rfl
    · exact .inr ⟨_, rfl⟩
  · rcases go_behindAs move with ⟨-, -, rfl⟩ | ⟨-, rfl⟩
    · exact .inl rfl
    · exact .inl rfl
  · cases h

/-- Breaks between parentheses do not matter. -/
theorem take_withoutBreaks {ws : List Word} (hp : skipsBreaks p = true)
    (hq : skipsBreaks q = true) (h : take p (withoutBreaks ws) = some q) : take p ws = some q := by
  induction ws generalizing p with
  | nil => exact h
  | cons w ws ih =>
    cases isBreak : w.kind.isBreak with
    | true =>
      rw [take_cons_of_go (onWord_break hp isBreak)]
      exact ih hp (by simpa [withoutBreaks, isBreak] using h)
    | false =>
      have split : withoutBreaks (w :: ws) = w :: withoutBreaks ws := by
        simp [withoutBreaks, isBreak]
      rw [split] at h
      obtain ⟨p', move, taken⟩ := take_cons_iff.mp h
      rw [take_cons_of_go move]
      rcases skipsBreaks_go hp move with hp' | ⟨s, rfl⟩
      · exact ih hp' taken
      · -- Nothing but the end of the statement stands behind the closing parenthesis.
        generalize withoutBreaks ws = rest at taken
        cases rest with
        | nil =>
          cases taken
          cases hq
        | cons w' ws' => cases taken

theorem go_left {left : Word} (isLeft : left.kind = .leftParen) :
    onWord (.list s .opening) left = .go (.list s (.entry true)) := by
  simp [onWord, Phase.step, Phase.stepList, isLeft]

/-- A closing parenthesis closes the list behind an entry, and behind a comma. -/
theorem go_right {right : Word} (isRight : right.kind = .rightParen) :
    (∀ e, onWord (.list s (.named true e)) right = .go (.list (s.add e) .closed)) ∧
      (s.entries ≠ [] → onWord (.list s (.entry true)) right = .go (.list s .closed)) := by
  constructor
  · intro e
    simp [onWord, Phase.step, Phase.stepList, Phase.stepBehindEntry, isRight, TokenKind.isBreak]
  · intro filled
    simp [onWord, Phase.step, Phase.stepList, isRight, TokenKind.isBreak, filled]

theorem complete_of_noComma {e : Entry} {next : Word} (noComma : next.kind ≠ .comma)
    (noAs : next.kind = .asWord → e.asName ≠ none) :
    onWord (.list s (.named false e)) next = .complete (s.add e) (.outside next.kind.isBreak) := by
  obtain ⟨kind, text⟩ := next
  cases kind <;> simp_all [onWord, Phase.step, Phase.stepList, Phase.stepBehindEntry]

/-- The words of a list lead from its start to where the next word ends it. -/
theorem take_list {es : List Entry} {ws : List Word} {next : Word} (h : SpellsList es ws next)
    (empty : s.entries = []) :
    ∃ q, take (.list s .opening) ws = some q ∧
      onWord q next = .complete { s with entries := es } (.outside next.kind.isBreak) := by
  cases h with
  | bare entries noComma noAs =>
    obtain ⟨front, last, rfl, taken⟩ := take_entries (s := s) entries (.inr ⟨rfl, rfl⟩)
    refine ⟨_, taken, ?_⟩
    rw [complete_of_noComma noComma]
    · simp [Statement.add, empty]
    · intro isAs
      obtain ⟨e, isLast, renamed⟩ := noAs isAs
      rw [List.getLast?_concat] at isLast
      cases isLast
      exact renamed
  | @enclosed inner trailing body left right _ isLeft entries isTrailing between isRight =>
    have awaits : Awaits true (.entry true) := .inl rfl
    obtain ⟨front, last, rfl, taken⟩ := take_entries (s := s) entries awaits
    refine ⟨.list { s with entries := front ++ [last] } .closed, ?_, rfl⟩
    rw [List.cons_append, take_cons_of_go (go_left isLeft)]
    rcases isTrailing with rfl | ⟨comma, isComma, rfl⟩
    · rw [List.append_nil] at between
      rw [← between] at taken
      rw [take_append (take_withoutBreaks rfl rfl taken), take_cons_of_go ((go_right isRight).1 _)]
      simp [take, Statement.add, empty]
    · have behindComma := take_append taken [comma]
      rw [take_cons_of_go (go_comma isComma), take, ← between] at behindComma
      rw [take_append (take_withoutBreaks rfl rfl behindComma),
        take_cons_of_go ((go_right isRight).2 (by simp [Statement.add]))]
      simp [take, Statement.add, empty]

/-- A reader is behind these tokens of a statement. -/
def Reached (first : Token) (ts : List Token) (p : Phase) : Prop :=
  ∃ p₀, isOutside p₀ = false ∧ (Phase.outside true).step first = .go p₀ ∧
    take p₀ (wordsOf ts) = some p

theorem step_keyword {first : Token} :
    (first.kind = .importWord → (Phase.outside true).step first =
        .go (.list ⟨.plain, first.line, []⟩ .opening)) ∧
      (first.kind = .fromWord → (Phase.outside true).step first = .go (.source first.line)) := by
  constructor <;> intro keyword <;> simp [Phase.step, keyword]

/-- The words in front of a list lead to the list. -/
theorem take_lead {first : Token} {o : Origin} {lead rest ws : List Word}
    (start : SpellsLead o lead) (words : first.word :: ws = lead ++ rest) :
    ∃ p₀, isOutside p₀ = false ∧ (Phase.outside true).step first = .go p₀ ∧
      take p₀ ws = take (.list ⟨o, first.line, []⟩ .opening) rest := by
  cases start with
  | @plain w isImport =>
    obtain ⟨rfl, rfl⟩ := List.cons.inj words
    exact ⟨_, rfl, step_keyword.1 isImport, rfl⟩
  | @source f w m isFrom isImport =>
    obtain ⟨rfl, rfl⟩ := List.cons.inj words
    have module : onWord (.source first.line) ⟨.identifier, m⟩ =
        .go (.afterSource first.line m) := rfl
    have list : onWord (.afterSource first.line m) w =
        .go (.list ⟨.source m, first.line, []⟩ .opening) := by
      simp [onWord, Phase.step, isImport]
    refine ⟨_, rfl, step_keyword.2 isFrom, ?_⟩
    show take _ (_ :: w :: _) = _
    rw [take_cons_of_go module, take_cons_of_go list]
    rfl

/-- The words of a statement lead to where the next word completes it. -/
theorem reached_of_spells {first : Token} {o : Origin} {es : List Entry} {ws : List Word}
    {next : Word} (h : Spells o es (first.word :: ws) next) :
    ∃ p₀ q, isOutside p₀ = false ∧ (Phase.outside true).step first = .go p₀ ∧
      take p₀ ws = some q ∧
      onWord q next = .complete ⟨o, first.line, es⟩ (.outside next.kind.isBreak) := by
  generalize words : first.word :: ws = all at h
  obtain ⟨start, list⟩ := h
  obtain ⟨p₀, inside, move, behind⟩ := take_lead start words
  obtain ⟨q, taken, completes⟩ := take_list (s := ⟨o, first.line, []⟩) list rfl
  exact ⟨p₀, q, inside, move, behind.trans taken, completes⟩

/-! ## Pending words -/

/-- The first step of a statement establishes the invariant. -/
theorem trace_first {first : Token} (inside : isOutside p = false)
    (move : (Phase.outside true).step first = .go p) : Trace first.line [first.word] p := by
  simp only [Phase.step, Bool.true_and, decide_eq_true_eq] at move
  split at move
  next isImport =>
    cases move
    exact ⟨rfl, [first.word], [], .plain isImport, ⟨rfl, rfl⟩, rfl⟩
  next noImport =>
    split at move
    next isFrom =>
      cases move
      exact ⟨rfl, first.word, isFrom, rfl⟩
    next noFrom =>
      cases move
      cases inside

theorem Reached.trace {first : Token} {ts : List Token} (h : Reached first ts p) :
    Trace first.line (wordsOf (first :: ts)) p := by
  obtain ⟨p₀, inside, move, taken⟩ := h
  exact (trace_first inside move).take taken

theorem take_of_append {ws ws' : List Word} (h : take p (ws ++ ws') = some q) :
    ∃ q', take p ws = some q' := by
  induction ws generalizing p with
  | nil => exact ⟨p, rfl⟩
  | cons w ws ih =>
    obtain ⟨p', move, taken⟩ := take_cons_iff.mp h
    rw [take_cons_of_go move]
    exact ih taken

/-- Pending words lead a reader into a statement. -/
theorem reached_of_pending {first : Token} {ts : List Token}
    (h : Pending (wordsOf (first :: ts))) : ∃ p, Reached first ts p := by
  obtain ⟨o, es, more, next, spelled⟩ := h
  obtain ⟨p₀, q, inside, move, taken, -⟩ := reached_of_spells spelled
  obtain ⟨p, taken⟩ := take_of_append taken
  exact ⟨p, p₀, inside, move, taken⟩

/-- A reader refuses exactly the words that offend. -/
theorem offends_iff {first : Token} {ts : List Token} (h : Reached first ts p) {w : Word} :
    Offends (wordsOf (first :: ts)) w ↔ ∃ e, onWord p w = .refuse e := by
  have trace := h.trace
  obtain ⟨p₀, inside, move, taken⟩ := h
  constructor
  · rintro ⟨notPending, notEnd⟩
    cases moved : onWord p w with
    | go q => exact absurd (trace.go moved).pending notPending
    | complete s q => exact absurd ⟨_, _, (trace.complete moved).1⟩ notEnd
    | refuse e => exact ⟨e, rfl⟩
  · rintro ⟨e, refused⟩
    constructor
    · rintro ⟨o, es, more, next, spelled⟩
      have longer : Spells o es (first.word :: (wordsOf ts ++ w :: more)) next := by
        simpa [wordsOf] using spelled
      obtain ⟨p₁, q, -, move', taken', -⟩ := reached_of_spells longer
      cases move.symm.trans move'
      rw [take_append taken, take, refused] at taken'
      cases taken'
    · rintro ⟨o, es, spelled⟩
      obtain ⟨p₁, q, -, move', taken', completes⟩ := reached_of_spells spelled
      cases move.symm.trans move'
      cases taken.symm.trans taken'
      rw [refused] at completes
      cases completes

/-! ## Scripts -/

/-- A reader goes through tokens by their words. -/
theorem read_ofTokens {line : Nat} {ws : List Word} {ts : List Token} (h : Trace line ws p)
    (taken : take p (wordsOf ts) = some q) (behind : TokenStream) :
    Script.read p (.ofTokens ts behind) = Script.read q behind := by
  induction ts generalizing p ws with
  | nil =>
    cases taken
    rfl
  | cons t ts ih =>
    obtain ⟨p', move, taken⟩ := take_cons_iff.mp taken
    show Script.read p (.token t (.ofTokens ts behind)) = _
    rw [Script.read, step_eq_onWord h.inside t, move]
    exact ih (h.go move) taken

/-- A statement is read up to where its tokens lead. -/
theorem Reached.read {first : Token} {ts : List Token} (h : Reached first ts p)
    (behind : TokenStream) :
    Script.read (.outside true) (.ofTokens (first :: ts) behind) = Script.read p behind := by
  obtain ⟨p₀, inside, move, taken⟩ := h
  show Script.read _ (.token first (.ofTokens ts behind)) = _
  rw [Script.read, move]
  exact read_ofTokens (trace_first inside move) taken behind

theorem Reached.snoc {first t : Token} {ts : List Token} (h : Reached first ts p)
    (move : p.step t = .go q) : Reached first (ts ++ [t]) q := by
  have inside := h.trace.inside
  obtain ⟨p₀, inside₀, move₀, taken⟩ := h
  refine ⟨p₀, inside₀, move₀, ?_⟩
  rw [wordsOf, List.map_append]
  refine (take_append taken _).trans ?_
  exact take_cons_of_go ((step_eq_onWord inside t).symm.trans move) []

/-- The end of the input is read as the end, whatever stands in front of it. -/
theorem read_outside_finish (fresh : Bool) (line : Nat) :
    Script.read (.outside fresh) (.finish line) = ⟨[], .complete⟩ := by
  cases fresh <;> rfl

/-- A token that ends a statement, or that is refused. -/
theorem read_next {behind rest : TokenStream} {t : Token} (next : behind.next = (.ok t, rest)) :
    (∀ s fresh, p.step t = .complete s (.outside fresh) →
        Script.read p behind = .cons s (Script.read (.outside fresh) rest)) ∧
      ∀ e, p.step t = .refuse e → Script.read p behind = .broken p (t.refused e) := by
  cases behind with
  | finish l =>
    cases next
    constructor
    · intro s fresh move
      rw [Script.read, move, read_outside_finish]
      rfl
    · intro e move
      rw [Script.read, move]
  | token u rest' =>
    cases next
    constructor
    · intro s fresh move
      rw [Script.read, move]
    · intro e move
      rw [Script.read, move]
  | failed n e rest' => cases next

theorem read_of_fails {behind rest : TokenStream} {e : ReadError}
    (fails : behind.next = (.error e, rest)) : Script.read p behind = .broken p (.unread e) := by
  cases behind with
  | failed n e' rest' =>
    cases fails
    rfl
  | finish l => cases fails
  | token t rest' => cases fails

theorem step_of_skip {fresh : Bool} {t : Token}
    (starts : fresh = true → t.kind ≠ .importWord ∧ t.kind ≠ .fromWord) :
    (Phase.outside fresh).step t = .go (.outside t.kind.isBreak) := by
  cases fresh with
  | false => rfl
  | true => simp [Phase.step, starts rfl]

/-- What the grammar gives is what a reader gives. -/
theorem read_of_reads {fresh : Bool} {tokens : TokenStream} {ss : List Statement}
    {fault : Option SyntaxFault} (h : Reads fresh tokens ss fault) :
    (Script.read (.outside fresh) tokens).statements = ss ∧
      (Script.read (.outside fresh) tokens).ending.fault? = fault := by
  induction h with
  | finish => simp [read_outside_finish, Ending.fault?]
  | unread => exact ⟨rfl, rfl⟩
  | @skip fresh t rest ss fault starts _ ih =>
    rw [Script.read, step_of_skip starts]
    exact ih
  | @statement first next ts behind rest o es ss fault spelled ends _ ih =>
    obtain ⟨p₀, q, inside, move, taken, completes⟩ := reached_of_spells spelled
    have reached : Reached first ts q := ⟨p₀, inside, move, taken⟩
    rw [← step_eq_onWord reached.trace.inside] at completes
    rw [reached.read, (read_next ends).1 _ _ completes]
    exact ⟨congrArg _ ih.1, ih.2⟩
  | @cut first ts behind rest e pending fails =>
    obtain ⟨p, reached⟩ := reached_of_pending pending
    rw [reached.read, read_of_fails fails]
    exact ⟨rfl, rfl⟩
  | @refused first t ts behind rest pending meets offends =>
    obtain ⟨p, reached⟩ := reached_of_pending pending
    obtain ⟨e, refused⟩ := (offends_iff reached).mp offends
    rw [← reached.trace.refuse refused]
    rw [← step_eq_onWord reached.trace.inside] at refused
    rw [reached.read, (read_next meets).2 _ refused]
    exact ⟨rfl, rfl⟩

/-- Outside statements a token starts one, or is passed over. -/
theorem step_outside (fresh : Bool) (t : Token) :
    (fresh = true ∧ ∃ q, isOutside q = false ∧ (Phase.outside true).step t = .go q) ∨
      (fresh = true → t.kind ≠ .importWord ∧ t.kind ≠ .fromWord) ∧
        (Phase.outside fresh).step t = .go (.outside t.kind.isBreak) := by
  cases fresh with
  | false => exact .inr ⟨nofun, rfl⟩
  | true =>
    by_cases isImport : t.kind = .importWord
    · exact .inl ⟨rfl, _, rfl, step_keyword.1 isImport⟩
    · by_cases isFrom : t.kind = .fromWord
      · exact .inl ⟨rfl, _, rfl, step_keyword.2 isFrom⟩
      · exact .inr ⟨fun _ => ⟨isImport, isFrom⟩, step_of_skip fun _ => ⟨isImport, isFrom⟩⟩

/-- Inside a statement the next token ends it or is refused, unless the reader goes on. -/
theorem reads_next {first t : Token} {ts : List Token} {behind rest : TokenStream}
    (reached : Reached first ts p) (next : behind.next = (.ok t, rest))
    (stops : ∀ q, p.step t ≠ .go q)
    (others : ∀ fresh, Reads fresh rest (Script.read (.outside fresh) rest).statements
      (Script.read (.outside fresh) rest).ending.fault?) :
    Reads true (.ofTokens (first :: ts) behind) (Script.read p behind).statements
      (Script.read p behind).ending.fault? := by
  have moved := step_eq_onWord reached.trace.inside t
  cases move : p.step t with
  | go q => exact absurd move (stops q)
  | complete s q =>
    obtain ⟨spelled, atLine, rfl⟩ := reached.trace.complete (moved.symm.trans move)
    obtain ⟨o, line, es⟩ := s
    cases atLine
    rw [(read_next next).1 _ _ move]
    exact .statement spelled next (others _)
  | refuse e =>
    have refused := moved.symm.trans move
    rw [(read_next next).2 e move, reached.trace.refuse refused]
    exact .refused reached.trace.pending next ((offends_iff reached).mpr ⟨e, refused⟩)

/-- What a reader gives is what the grammar gives, outside a statement and inside one. -/
theorem reads_read (tokens : TokenStream) :
    (∀ fresh, Reads fresh tokens (Script.read (.outside fresh) tokens).statements
        (Script.read (.outside fresh) tokens).ending.fault?) ∧
      ∀ {first : Token} {ts : List Token} {p : Phase}, Reached first ts p →
        Reads true (.ofTokens (first :: ts) tokens) (Script.read p tokens).statements
          (Script.read p tokens).ending.fault? := by
  induction tokens with
  | finish line =>
    have others : ∀ fresh, Reads fresh (.finish line)
        (Script.read (.outside fresh) (.finish line)).statements
        (Script.read (.outside fresh) (.finish line)).ending.fault? := by
      intro fresh
      rw [read_outside_finish]
      exact .finish
    refine ⟨others, fun {first ts p} reached => reads_next reached rfl ?_ others⟩
    intro q move
    obtain ⟨fresh, rfl⟩ := Phase.outside_of_step_finish move
    cases reached.trace
  | token t rest ih =>
    constructor
    · intro fresh
      rcases step_outside fresh t with ⟨rfl, q, inside, move⟩ | ⟨starts, move⟩
      · have reached : Reached t [] q := ⟨q, inside, move, rfl⟩
        rw [Script.read, move]
        exact ih.2 reached
      · rw [Script.read, move]
        exact .skip starts (ih.1 _)
    · intro first ts p reached
      by_cases goes : ∃ q, p.step t = .go q
      · obtain ⟨q, move⟩ := goes
        have further := ih.2 (reached.snoc move)
        rw [Script.read, move]
        simpa [TokenStream.ofTokens] using further
      · exact reads_next reached rfl (fun q move => goes ⟨q, move⟩) ih.1
  | failed n e rest =>
    exact ⟨fun fresh => .unread, fun {first ts p} reached => .cut reached.trace.pending rfl⟩

/-- The script of a feed is the reading of its tokens. -/
theorem reads_iff {feed : Feed} {ss : List Statement} {fault : Option SyntaxFault} :
    Reads true (.ofFeed feed) ss fault ↔
      (Script.ofFeed feed).statements = ss ∧ (Script.ofFeed feed).ending.fault? = fault := by
  constructor
  · exact read_of_reads
  · rintro ⟨rfl, rfl⟩
    exact (reads_read (.ofFeed feed)).1 true

end Grammar

/-! ## Runs -/

/-- A run ends at the fault of its script. -/
theorem Session.follow_fault (squash : Bool) (s : Session) (script : Script) :
    (s.follow squash script).2 = script.ending.fault? := by
  unfold Session.follow
  cases script.ending with
  | complete => rfl
  | broken settled fault => cases settled <;> rfl

/-- A run reads exactly what the grammar allows.  Its statements and its fault are those
that the grammar gives for the tokens of the input, whatever the settings and the session
are: it succeeds where every statement is spelled to its end and no read fails, and
otherwise its fault is the first failed read or offending token. -/
theorem Session.run_iff_reads (settings : SortSettings) (s : Session) (feed : Feed)
    (ss : List Statement) (fault : Option SyntaxFault) :
    (Script.ofFeed feed).statements = ss ∧ (s.run settings feed).2 = fault ↔
      Grammar.Reads true (.ofFeed feed) ss fault := by
  rw [Session.run, Session.follow_fault]
  exact Grammar.reads_iff.symm

end ImportTidy
