import ImportTidy.Proofs.Calls
import ImportTidy.Proofs.Grammar.Reading
import ImportTidy.Proofs.Padding

/-!
# A reading stops

A reading is a loop in a loop.  The outer one (`Reader.Round`) takes a token outside statements.
Where the token starts a statement, the inner one (`Phase.Round`) goes through its list, token by
token, up to the token behind it.  In parentheses it passes over breaks, with a loop of its own.

Both stop, and give the script of the input (`Script.reading_stops`).  The invariant says which
stream is left, and that the script is what the reader has and what it would read from there.  A
round that does not stop was given a token that is not the end of the input, so less is left for
the tokenizer.  Nothing that waits for a token goes on at the end of the input
(`Phase.inside_of_go`), so no call is made behind it.
-/

namespace ImportTidy

open Grammar (isOutside)

variable {p q : Phase} {t : Token} {c c' : Caller} {stream : TokenStream}
  {next : Except ReadError Token × TokenStream}

/-! ## One token of a script -/

/-- The script of what is next in a stream, and of what is left behind it. -/
def Script.readNext (p : Phase) (next : Except ReadError Token × TokenStream) : Script :=
  match next.1 with
  | .error e => .broken p (.unread e)
  | .ok t =>
      match p.step t with
      | .go q => Script.read q next.2
      | .complete st q => .cons st (Script.read q next.2)
      | .refuse expected => .broken p (t.refused expected)

theorem Script.read_eq_readNext (p : Phase) (stream : TokenStream) :
    Script.read p stream = Script.readNext p stream.next := by
  cases stream with
  | failed n e rest => rfl
  | token t rest => rfl
  | finish line =>
    rw [Script.read, Script.readNext, TokenStream.next]
    dsimp only
    cases move : p.step (.finish line) with
    | refuse expected => rfl
    | complete st q =>
      obtain rfl := Phase.outside_of_complete move
      rfl
    | go q =>
      obtain ⟨fresh, rfl⟩ := Phase.outside_of_step_finish move
      cases fresh <;> cases move <;> rfl

/-- Where breaks do nothing they may be passed over. -/
theorem Script.read_eq_readNext_significant (rests : p.rests = true) (stream : TokenStream) :
    Script.read p stream = Script.readNext p stream.nextSignificant := by
  induction stream with
  | finish line => exact read_eq_readNext p _
  | failed n e rest => rfl
  | token t rest ih =>
    rw [TokenStream.nextSignificant]
    split
    next isBreak =>
      rw [Script.read, Phase.step_of_rests rests isBreak]
      exact ih
    next => rfl

/-! ## Statements -/

namespace Phase

/-- The reader waits in parentheses, where it passes over breaks. -/
def skips : Phase → Bool
  | .list _ (.entry enclosed) => enclosed
  | .list _ (.named enclosed _) => enclosed
  | .list _ (.behindAs enclosed _) => enclosed
  | _ => false

theorem rests_of_skips (h : p.skips = true) : p.rests = true := by
  cases p with
  | list st place =>
    cases place with
    | entry enclosed => exact h
    | named enclosed e => exact h
    | behindAs enclosed name => exact h
    | opening => cases h
    | closed => cases h
  | _ => cases h

/-- The reader asks for a token, and this is the answer. -/
def Advances (p : Phase) (c : Caller) (answer : Except ReadError Token) (c' : Caller) : Prop :=
  if p.skips then Loop Caller.SkipRound c (answer, c') else c.Calls answer c'

/-- How the reading of a statement ends. -/
inductive StatementEnd where
  /-- Behind the statement, with a token of this kind. -/
  | complete (st : Statement) (kind : TokenKind)
  /-- In this phase with a fault. -/
  | broken (p : Phase) (fault : SyntaxFault)

/-- What the reader does with an answer inside a statement. -/
def turnOf (p : Phase) (c : Caller) :
    Except ReadError Token → Turn (Phase × Caller) (StatementEnd × Caller)
  | .error e => .stop (.broken p (.unread e), c)
  | .ok t =>
      match p.step t with
      | .go q => .again (q, c)
      | .complete st _ => .stop (.complete st t.kind, c)
      | .refuse expected => .stop (.broken p (t.refused expected), c)

/-- A round inside a statement. -/
def Round (state : Phase × Caller) (turn : Turn (Phase × Caller) (StatementEnd × Caller)) : Prop :=
  ∃ answer c, state.1.Advances state.2 answer c ∧ turn = state.1.turnOf c answer

/-- What the end of a statement says of the script that was to be read. -/
def StatementEnd.Fits (start c : Caller) (whole : Script) : StatementEnd → Prop
  | .broken q fault => whole = .broken q fault
  | .complete st kind =>
      if kind = .finish then whole = ⟨[st], .complete⟩
      else c.tokenizer.left < start.tokenizer.left ∧
        ∃ rest, c.Ready rest ∧ whole = .cons st (Script.read (.outside kind.isBreak) rest)

theorem StatementEnd.Fits.of_le {start start' : Caller} {whole : Script} {ending : StatementEnd}
    (h : ending.Fits start c whole) (le : start.tokenizer.left ≤ start'.tokenizer.left) :
    ending.Fits start' c whole := by
  cases ending with
  | broken q fault => exact h
  | complete st kind =>
    rw [StatementEnd.Fits] at h ⊢
    split
    next isFinish => rwa [if_pos isFinish] at h
    next goesOn =>
      rw [if_neg goesOn] at h
      exact ⟨h.1.trans_le le, h.2⟩

/-- A reader that goes on inside a statement is still inside, and the input did not end. -/
theorem inside_of_go (inside : isOutside p = false) (move : p.step t = .go q) :
    isOutside q = false ∧ t.kind ≠ .finish := by
  obtain ⟨kind, text, line, column, stride⟩ := t
  have goesOn (isBreak : kind.isBreak = true) : kind ≠ .finish := by
    rintro rfl
    cases isBreak
  cases p with
  | outside fresh => cases inside
  | source l =>
    cases kind <;> cases move
    exact ⟨rfl, nofun⟩
  | afterSource l m =>
    cases kind <;> cases move
    exact ⟨rfl, nofun⟩
  | list st place =>
    cases place with
    | opening =>
      rcases Grammar.go_opening move with ⟨rfl, rfl⟩ | ⟨rfl, rfl⟩ <;> exact ⟨rfl, nofun⟩
    | entry enclosed =>
      rcases Grammar.go_entry move with ⟨-, isBreak, rfl⟩ | ⟨rfl, rfl⟩ | ⟨rfl, -, -, rfl⟩
      · exact ⟨rfl, goesOn isBreak⟩
      · exact ⟨rfl, nofun⟩
      · exact ⟨rfl, nofun⟩
    | named enclosed e =>
      rcases Grammar.go_named move with
        ⟨-, isBreak, rfl⟩ | ⟨rfl, -, rfl⟩ | ⟨rfl, rfl⟩ | ⟨rfl, -, rfl⟩
      · exact ⟨rfl, goesOn isBreak⟩
      · exact ⟨rfl, nofun⟩
      · exact ⟨rfl, nofun⟩
      · exact ⟨rfl, nofun⟩
    | behindAs enclosed name =>
      rcases Grammar.go_behindAs move with ⟨-, isBreak, rfl⟩ | ⟨rfl, rfl⟩
      · exact ⟨rfl, goesOn isBreak⟩
      · exact ⟨rfl, nofun⟩
    | closed => cases move

theorem Advances.unique {answer answer' : Except ReadError Token} {c₁ c₂ : Caller}
    (h : p.Advances c answer c₁) (h' : p.Advances c answer' c₂) : answer = answer' ∧ c₁ = c₂ := by
  rw [Advances] at h h'
  split at h
  next skips =>
    rw [if_pos skips] at h'
    have same := h.unique h' fun _ _ _ => Caller.skipRound_oneWay
    exact ⟨congrArg (·.1) same, congrArg (·.2) same⟩
  next other =>
    rw [if_neg other] at h'
    exact h.unique h'

theorem round_oneWay {state : Phase × Caller}
    {turn turn' : Turn (Phase × Caller) (StatementEnd × Caller)} (made : Round state turn)
    (made' : Round state turn') : turn = turn' := by
  obtain ⟨answer, c, advances, rfl⟩ := made
  obtain ⟨answer', c', advances', rfl⟩ := made'
  obtain ⟨rfl, rfl⟩ := advances.unique advances'
  rfl

/-- The reader gets what it asks for, and reads on from there. -/
theorem exists_advances (p : Phase) (ready : c.Ready stream) :
    ∃ next c', p.Advances c next.1 c' ∧ c.Answered next c' ∧
      Script.read p stream = Script.readNext p next := by
  cases skips : p.skips with
  | true =>
    obtain ⟨c', loop, answered⟩ := ready.skips
    refine ⟨_, c', ?_, answered, Script.read_eq_readNext_significant (rests_of_skips skips) _⟩
    rwa [Advances, if_pos skips]
  | false =>
    obtain ⟨c', calls, answered⟩ := ready.calls
    refine ⟨_, c', ?_, answered, Script.read_eq_readNext p _⟩
    rwa [Advances, if_neg (Bool.eq_false_iff.mp skips)]

/-- The step lemma: a round inside a statement goes on inside with less left, or it ends the
statement. -/
theorem exists_round (inside : isOutside p = false) (ready : c.Ready stream) :
    ∃ turn, Round (p, c) turn ∧
      match turn with
      | .again (q, c') => isOutside q = false ∧ c'.tokenizer.left < c.tokenizer.left ∧
          ∃ rest, c'.Ready rest ∧ Script.read q rest = Script.read p stream
      | .stop (ending, c') => OnlyLastEnds c'.answers ∧
          ending.Fits c c' (Script.read p stream) := by
  obtain ⟨⟨answer, rest⟩, c', advances, answered, reads⟩ := exists_advances p ready
  refine ⟨_, ⟨answer, c', advances, rfl⟩, ?_⟩
  rw [reads]
  cases answer with
  | error e => exact ⟨answered.onlyLast, rfl⟩
  | ok t =>
    dsimp only [turnOf, Script.readNext]
    cases move : p.step t with
    | refuse expected => exact ⟨answered.onlyLast, rfl⟩
    | go q =>
      obtain ⟨stays, goesOn⟩ := inside_of_go inside move
      exact ⟨stays, answered.less goesOn, rest, answered.ready goesOn, rfl⟩
    | complete st q =>
      obtain rfl := outside_of_complete move
      refine ⟨answered.onlyLast, ?_⟩
      dsimp only [StatementEnd.Fits]
      split
      next isFinish =>
        -- The end of the input ended the statement, so nothing is read behind it.
        obtain ⟨line, rfl⟩ := answered.finished t rfl isFinish
        rw [Grammar.read_outside_finish]
        rfl
      next goesOn => exact ⟨answered.less goesOn, rest, answered.ready goesOn, rfl⟩

/-- The reading of a statement that started in `c`, with this script to be read, can go on in this
state. -/
structure ReadsOn (c : Caller) (whole : Script) (state : Phase × Caller) : Prop where
  inside : isOutside state.1 = false
  less : state.2.tokenizer.left ≤ c.tokenizer.left
  same : ∃ rest, state.2.Ready rest ∧ Script.read state.1 rest = whole

/-- The run lemma: the reading of a statement stops. -/
theorem exists_statement (inside : isOutside p = false) (ready : c.Ready stream) :
    ∃ result, Loop Round (p, c) result ∧ OnlyLastEnds result.2.answers ∧
      result.1.Fits c result.2 (Script.read p stream) := by
  have start : ReadsOn c (Script.read p stream) (p, c) := ⟨inside, le_refl _, stream, ready, rfl⟩
  refine Loop.exists_of_left (fun state => state.2.tokenizer.left) ?_ start
  rintro ⟨q, c₁⟩ ⟨inside, le, rest, ready, same⟩
  obtain ⟨turn, made, does⟩ := exists_round inside ready
  refine ⟨turn, made, ?_⟩
  rw [same] at does
  cases turn with
  | again state =>
    obtain ⟨stays, less, ready⟩ := does
    exact ⟨⟨stays, less.le.trans le, ready⟩, less⟩
  | stop result => exact ⟨does.1, does.2.of_le le⟩

end Phase

/-! ## Sources -/

/-- A script with statements in front. -/
def Script.behind (statements : List Statement) (script : Script) : Script :=
  { script with statements := statements ++ script.statements }

theorem Script.behind_cons (statements : List Statement) (st : Statement) (script : Script) :
    (script.cons st).behind statements = script.behind (statements ++ [st]) := by
  simp [Script.behind, Script.cons]

/-- A reader outside statements. -/
structure Reader where
  /-- A statement may start. -/
  fresh : Bool := true
  /-- The statements that were read. -/
  statements : List Statement := []
  caller : Caller

namespace Reader

variable {r : Reader}

/-- Behind a token of this kind the reader goes on, unless it was the end of the input. -/
def turnBehind (statements : List Statement) (kind : TokenKind) (c : Caller) :
    Turn Reader (Script × Caller) :=
  if kind = .finish then .stop (⟨statements, .complete⟩, c)
  else .again ⟨kind.isBreak, statements, c⟩

/-- What the reader does behind a statement. -/
def turnOf (r : Reader) (c : Caller) : Phase.StatementEnd → Turn Reader (Script × Caller)
  | .complete st kind => turnBehind (r.statements ++ [st]) kind c
  | .broken p fault => .stop (⟨r.statements, .broken p.settled fault⟩, c)

/-- A round outside statements.  A token that starts a statement has the statement read. -/
def Round (r : Reader) (turn : Turn Reader (Script × Caller)) : Prop :=
  ∃ answer c, r.caller.Calls answer c ∧
    match answer with
    | .error e => turn = .stop (⟨r.statements, .broken none (.unread e)⟩, c)
    | .ok t =>
        match (Phase.outside r.fresh).step t with
        | .go p =>
            if isOutside p then turn = turnBehind r.statements t.kind c
            else ∃ ending c', Loop Phase.Round (p, c) (ending, c') ∧ turn = r.turnOf c' ending
        | _ => False

/-- The reading of a feed gives this script, with these calls. -/
def Reads (feed : Feed) : Script × Caller → Prop :=
  Loop Round { caller := { tokenizer := { feed := feed } } }

theorem round_oneWay {turn turn' : Turn Reader (Script × Caller)} (made : r.Round turn)
    (made' : r.Round turn') : turn = turn' := by
  obtain ⟨answer, c, calls, does⟩ := made
  obtain ⟨answer', c', calls', does'⟩ := made'
  obtain ⟨rfl, rfl⟩ := calls.unique calls'
  cases answer with
  | error e => exact does.trans does'.symm
  | ok t =>
    dsimp only at does does'
    split at does
    next p move =>
      rw [move] at does'
      dsimp only at does'
      split at does
      next outside =>
        rw [if_pos outside] at does'
        exact does.trans does'.symm
      next inside =>
        rw [if_neg inside] at does'
        obtain ⟨ending, c₁, reads, rfl⟩ := does
        obtain ⟨ending', c₂, reads', rfl⟩ := does'
        cases reads.unique reads' fun _ _ _ => Phase.round_oneWay
        rfl
    next => exact does.elim

/-- Outside statements a token starts one, which the end of the input does not, or is passed
over. -/
theorem starts_or_passes (fresh : Bool) (t : Token) :
    (∃ p, (Phase.outside fresh).step t = .go p ∧ isOutside p = false ∧ t.kind ≠ .finish) ∨
      (Phase.outside fresh).step t = .go (.outside t.kind.isBreak) := by
  rcases Grammar.step_outside fresh t with ⟨rfl, p, inside, move⟩ | ⟨-, move⟩
  · refine .inl ⟨p, move, inside, fun isFinish => ?_⟩
    simp [Phase.step, isFinish] at move
    rw [← move] at inside
    cases inside
  · exact .inr move

/-- The script of a source, if the reader has its front and this stream is left. -/
def whole (r : Reader) (stream : TokenStream) : Script :=
  (Script.read (.outside r.fresh) stream).behind r.statements

/-- The reading of this script can go on here. -/
def ReadsOn (script : Script) (r : Reader) : Prop :=
  ∃ rest, r.caller.Ready rest ∧ r.whole rest = script

/-- The turn is right where this script is to be read: the reader stops with it, or goes on with
less left. -/
def Keeps (r : Reader) (script : Script) : Turn Reader (Script × Caller) → Prop
  | .again r' => r'.caller.tokenizer.left < r.caller.tokenizer.left ∧ r'.ReadsOn script
  | .stop (script', c) => script' = script ∧ OnlyLastEnds c.answers

/-- A token that is passed over, or that starts no statement at the end. -/
theorem keeps_turnBehind {statements : List Statement} {kind : TokenKind} {script : Script}
    (onlyLast : OnlyLastEnds c.answers)
    (finished : kind = .finish → script = ⟨statements, .complete⟩)
    (goesOn : kind ≠ .finish → c.tokenizer.left < r.caller.tokenizer.left ∧ ∃ rest, c.Ready rest ∧
      script = (Script.read (.outside kind.isBreak) rest).behind statements) :
    r.Keeps script (turnBehind statements kind c) := by
  rw [turnBehind]
  split
  next isFinish => exact ⟨(finished isFinish).symm, onlyLast⟩
  next other =>
    obtain ⟨less, rest, ready, same⟩ := goesOn other
    exact ⟨less, rest, ready, same.symm⟩

/-- Behind a statement. -/
theorem keeps_turnOf {rest : TokenStream} {ending : Phase.StatementEnd}
    (less : c.tokenizer.left < r.caller.tokenizer.left) (onlyLast : OnlyLastEnds c'.answers)
    (fits : ending.Fits c c' (Script.read p rest)) :
    r.Keeps ((Script.read p rest).behind r.statements) (r.turnOf c' ending) := by
  cases ending with
  | broken q fault =>
    have broken : Script.read p rest = .broken q fault := fits
    rw [broken]
    exact ⟨by simp [Script.behind, Script.broken], onlyLast⟩
  | complete st kind =>
    rw [Phase.StatementEnd.Fits] at fits
    refine keeps_turnBehind onlyLast (fun isFinish => ?_) fun other => ?_
    · rw [if_pos isFinish] at fits
      rw [fits]
      rfl
    · rw [if_neg other] at fits
      obtain ⟨less', rest', ready, same⟩ := fits
      exact ⟨less'.trans less, rest', ready, by rw [same, Script.behind_cons]⟩

/-- The step lemma: a round outside statements stops with the script, or goes on with less left. -/
theorem exists_round (ready : r.caller.Ready stream) :
    ∃ turn, r.Round turn ∧ r.Keeps (r.whole stream) turn := by
  obtain ⟨c, calls, answered⟩ := ready.calls
  rw [whole, Script.read_eq_readNext]
  generalize stream.next = next at calls answered
  obtain ⟨answer, rest⟩ := next
  cases answer with
  | error e =>
    refine ⟨_, ⟨_, c, calls, rfl⟩, ?_⟩
    exact ⟨by simp [Script.readNext, Script.behind, Script.broken, Phase.settled],
      answered.onlyLast⟩
  | ok t =>
    rw [Script.readNext]
    dsimp only
    rcases starts_or_passes r.fresh t with ⟨p, move, inside, goesOn⟩ | move
    · obtain ⟨⟨ending, c'⟩, reads, onlyLast, fits⟩ :=
        Phase.exists_statement inside (answered.ready goesOn)
      have round : r.Round (r.turnOf c' ending) := by
        refine ⟨_, c, calls, ?_⟩
        dsimp only
        rw [move]
        dsimp only
        rw [if_neg (Bool.eq_false_iff.mp inside)]
        exact ⟨ending, c', reads, rfl⟩
      rw [move]
      exact ⟨_, round, keeps_turnOf (answered.less goesOn) onlyLast fits⟩
    · have round : r.Round (turnBehind r.statements t.kind c) := by
        refine ⟨_, c, calls, ?_⟩
        dsimp only
        rw [move]
        rfl
      rw [move]
      dsimp only
      refine ⟨_, round, keeps_turnBehind answered.onlyLast (fun isFinish => ?_) fun other => ?_⟩
      · obtain ⟨line, rfl⟩ := answered.finished t rfl isFinish
        rw [Grammar.read_outside_finish]
        simp [Script.behind]
      · exact ⟨answered.less other, rest, answered.ready other, rfl⟩

end Reader

/-- Every reading stops.

A round of a scan gives the end of the input or a failed read, or less is left behind it: fewer
lines, or as many and fewer bytes in the first of them.  So scans stop, the loop that passes over
breaks stops, the reading of a statement with its list stops, and the reading of a source stops.
It gives the script of the source, and no token is asked for behind the end of the input or a
failed read. -/
theorem Script.reading_stops (feed : Feed) :
    (∀ (s : Tokenizer) turn, s.round? = some turn → s.Shrinks turn) ∧
    (∀ (s : Tokenizer) stream, s.Agrees stream → ∃ given, s.Scans given ∧ s.next? = some given ∧
      (Ends given.1 ∨ given.2.left < s.left)) ∧
    (∀ (c : Caller) stream, c.Ready stream → ∃ c',
      Loop Caller.SkipRound c (stream.nextSignificant.1, c') ∧ OnlyLastEnds c'.answers) ∧
    (∀ p (c : Caller) stream, isOutside p = false → c.Ready stream →
      ∃ result, Loop Phase.Round (p, c) result ∧ OnlyLastEnds result.2.answers) ∧
    ∃ c, Reader.Reads feed (.ofFeed feed, c) ∧ OnlyLastEnds c.answers ∧
      ∀ result, Reader.Reads feed result → result = (.ofFeed feed, c) := by
  refine ⟨fun s turn => Tokenizer.shrinks_of_round?, fun s stream => Tokenizer.Agrees.scans,
    fun c stream ready => ?_, fun p c stream inside ready => ?_, ?_⟩
  · obtain ⟨c', loop, answered⟩ := ready.skips
    exact ⟨c', loop, answered.onlyLast⟩
  · obtain ⟨result, loop, onlyLast, -⟩ := Phase.exists_statement inside ready
    exact ⟨result, loop, onlyLast⟩
  · let first : Reader := { caller := { tokenizer := { feed := feed } } }
    have start : first.ReadsOn (.ofFeed feed) := ⟨.ofFeed feed, ⟨.pending, nofun⟩, rfl⟩
    obtain ⟨⟨script, c⟩, reads, rfl, onlyLast⟩ : ∃ result, Reader.Reads feed result ∧
        result.1 = .ofFeed feed ∧ OnlyLastEnds result.2.answers := by
      refine Loop.exists_of_left (fun r : Reader => r.caller.tokenizer.left) ?_ start
      rintro r ⟨rest, ready, same⟩
      obtain ⟨turn, made, keeps⟩ := Reader.exists_round ready
      refine ⟨turn, made, ?_⟩
      rw [same] at keeps
      cases turn with
      | again r' => exact ⟨keeps.2, keeps.1⟩
      | stop result => exact keeps
    exact ⟨c, reads, onlyLast, fun result reads' =>
      Loop.unique reads' reads fun _ _ _ => Reader.round_oneWay⟩

/-- An open parenthesis, with a comma and a joined line at the end of the input. -/
example : Script.ofFeed [.ok "from m import (a,\n", .ok "b, \\"] =
    ⟨[], .broken (some ⟨.source "m", 1, []⟩) (.unexpected 3 0 .importedName .finish)⟩ := by
  decide +kernel

end ImportTidy
