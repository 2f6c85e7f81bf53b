import Mathlib.Data.Prod.Lex
import Mathlib.Order.WellFounded
import ImportTidy.Proofs.Tokenizer

/-!
# The loops below a reader

A `Loop` is the rounds that a program goes through from a state until one of them stops.  It
stops where every round makes less of what is left (`Loop.exists_of_left`).

Two loops give a reader its tokens.  A scan goes through lines until one has a token, and each of
its rounds is a `Tokenizer.round?`.  What is left for a tokenizer are the lines that are not done,
and then the bytes of the first of them (`Tokenizer.left`).  A round is the last one, with the end
of the input or a failed read, or less is left behind it (`Tokenizer.shrinks_of_round?`).

The other loop calls the tokenizer again behind each break.  A `Caller` keeps what the calls gave,
so that a call behind the end of the input would show (`Caller.Ready`, `Caller.Answered`).
-/

namespace ImportTidy

/-! ## Loops -/

/-- What a round of a loop does. -/
inductive Turn (σ ρ : Type) where
  /-- The next round starts in this state. -/
  | again (s : σ)
  /-- The loop stops with this result. -/
  | stop (r : ρ)

/-- The loop stops with the result if it starts in the state. -/
inductive Loop {σ ρ : Type} (round : σ → Turn σ ρ → Prop) : σ → ρ → Prop where
  | stop {s : σ} {r : ρ} (turn : round s (.stop r)) : Loop round s r
  | again {s s' : σ} {r : ρ} (turn : round s (.again s')) (rest : Loop round s' r) :
      Loop round s r

namespace Loop

variable {σ ρ μ : Type} {round : σ → Turn σ ρ → Prop} {s : σ} {r r' : ρ}

/-- A loop stops if each of its rounds can be made and leaves less. -/
theorem exists_of_left [Preorder μ] [WellFoundedLT μ] (left : σ → μ) {inv : σ → Prop}
    {post : ρ → Prop}
    (total : ∀ s, inv s → ∃ turn, round s turn ∧
      match turn with
      | .again s' => inv s' ∧ left s' < left s
      | .stop r => post r)
    (start : inv s) : ∃ r, Loop round s r ∧ post r := by
  generalize atLeft : left s = m
  induction m using WellFoundedLT.induction generalizing s with
  | ind m ih =>
    obtain ⟨turn, made, does⟩ := total s start
    cases turn with
    | again s' =>
      obtain ⟨r, rest, result⟩ := ih (left s') (atLeft ▸ does.2) does.1 rfl
      exact ⟨r, .again made rest, result⟩
    | stop r => exact ⟨r, .stop made, does⟩

/-- A loop has one result if each of its rounds can be made in one way only. -/
theorem unique (h : Loop round s r) (h' : Loop round s r')
    (oneWay : ∀ s turn turn', round s turn → round s turn' → turn = turn') : r = r' := by
  induction h with
  | stop turn =>
    cases h' with
    | stop turn' => exact Turn.stop.inj (oneWay _ _ _ turn turn')
    | again turn' _ => cases oneWay _ _ _ turn turn'
  | again turn _ ih =>
    cases h' with
    | stop turn' => cases oneWay _ _ _ turn turn'
    | again turn' rest =>
      cases oneWay _ _ _ turn turn'
      exact ih rest

end Loop

/-! ## Rounds of a scan -/

/-- The answer of a call is the end of the input, or a failed read. -/
def Ends : Except ReadError Token → Prop
  | .error _ => True
  | .ok t => t.kind = .finish

namespace Tokenizer

/-- A round in the open line.  Where the line is joined to the next one, the scan goes on. -/
def scanOpen? (s : Tokenizer) : Option (Turn Tokenizer (Except ReadError Token × Tokenizer)) :=
  match scanLine (Utf8.encode s.line) s.cursor with
  | none => none
  | some .joined => some (.again { s with state := .pending })
  | some (.found kind start stop next) =>
      (give? s.feed s.line s.linesRead kind start stop next).map .stop

/-- A round of a scan.  It reads a line where none is open. -/
def round? (s : Tokenizer) : Option (Turn Tokenizer (Except ReadError Token × Tokenizer)) :=
  match s.state with
  | .pending =>
      match s.feed with
      | [] => some (.stop (.ok (.finish (s.linesRead + 1)), ⟨[], "", 0, s.linesRead, .finished⟩))
      | .error e :: feed => some (.stop (.error e, ⟨feed, "", 0, s.linesRead, .pending⟩))
      | .ok line :: feed => scanOpen? ⟨feed, line, 0, s.linesRead + 1, .opened⟩
  | .opened => s.scanOpen?
  | .finished => some (.stop (.ok (.finish (s.linesRead + 1)), s))

/-- The scan from this state gives this. -/
def Scans : Tokenizer → Except ReadError Token × Tokenizer → Prop :=
  Loop fun s turn => s.round? = some turn

/-- The lines that are not done: those that were not read, and the open one. -/
def linesLeft (s : Tokenizer) : Nat := s.feed.length + if s.state = .opened then 1 else 0

/-- The bytes behind the cursor of the open line.  Where no line is open, those of the next one. -/
def bytesLeft (s : Tokenizer) : Nat :=
  match s.state with
  | .opened => (Utf8.encode s.line).length - s.cursor
  | _ =>
      match s.feed with
      | .ok line :: _ => (Utf8.encode line).length
      | _ => 0

/-- The lines that are left, and then the bytes of the first of them. -/
def left (s : Tokenizer) : Nat ×ₗ Nat := toLex (s.linesLeft, s.bytesLeft)

/-- A round stops at the end of the input or at a failed read, or less is left behind it. -/
def Shrinks (s : Tokenizer) : Turn Tokenizer (Except ReadError Token × Tokenizer) → Prop
  | .again s' => s'.left < s.left
  | .stop given => Ends given.1 ∨ given.2.left < s.left

variable {feed : Feed} {line : String} {cursor n : Nat} {s s' start : Tokenizer}
  {given : Except ReadError Token × Tokenizer}

theorem left_lt_of_lines (fewer : s'.linesLeft < s.linesLeft) : s'.left < s.left :=
  Prod.Lex.toLex_lt_toLex.mpr (.inl fewer)

theorem left_lt_of_bytes (lines : s'.linesLeft = s.linesLeft)
    (fewer : s'.bytesLeft < s.bytesLeft) : s'.left < s.left :=
  Prod.Lex.toLex_lt_toLex.mpr (.inr ⟨lines, fewer⟩)

/-- A lexeme that is no break has a byte. -/
theorem length_pos_of_lexemeOf {bytes : List UInt8} {kind : TokenKind} {length : Nat}
    (lexeme : lexemeOf bytes = some (kind, length)) (noBreak : kind.isBreak = false) :
    0 < length := by
  cases bytes with
  | nil =>
    cases lexeme
    cases noBreak
  | cons b behind =>
    rw [lexemeOf] at lexeme
    split_ifs at lexeme <;> cases lexeme <;> omega

theorem bytesFrom?_eq_some {bytes rest : List UInt8} {start : Nat}
    (h : bytesFrom? bytes start = some rest) : start ≤ bytes.length ∧ rest = bytes.drop start := by
  rw [bytesFrom?] at h
  split at h
  next inside => exact ⟨inside, (Option.some.inj h).symm⟩
  next => cases h

theorem le_of_skipBlanks? {bytes : List UInt8} {start stop : Nat}
    (h : skipBlanks? bytes start = some stop) : start ≤ stop ∧ start ≤ bytes.length := by
  obtain ⟨rest, from_, rfl⟩ := Option.map_eq_some_iff.mp h
  exact ⟨Nat.le_add_right _ _, (bytesFrom?_eq_some from_).1⟩

/-- A scan that finds no break moves the cursor on. -/
theorem lt_of_scanLine {bytes : List UInt8} {kind : TokenKind} {start stop next : Nat}
    (found : scanLine bytes cursor = some (.found kind start stop next))
    (noBreak : kind.isBreak = false) : cursor < bytes.length ∧ cursor < next := by
  obtain ⟨begin, skipped, found⟩ := Option.bind_eq_some_iff.mp found
  obtain ⟨rest, from_, found⟩ := Option.bind_eq_some_iff.mp found
  split at found
  next => cases found
  next kind' length lexeme =>
    obtain ⟨behind, skipsBehind, isFound⟩ := Option.bind_eq_some_iff.mp found
    cases isFound
    have long := length_pos_of_lexemeOf lexeme noBreak
    obtain ⟨before, -⟩ := le_of_skipBlanks? skipped
    obtain ⟨behind, inside⟩ := le_of_skipBlanks? skipsBehind
    omega

/-- A round in the open line ends it or moves the cursor on. -/
theorem shrinks_of_scanOpen? {turn : Turn Tokenizer (Except ReadError Token × Tokenizer)}
    (isOpen : s.state = .opened) (h : s.scanOpen? = some turn) : s.Shrinks turn := by
  have lines : s.linesLeft = s.feed.length + 1 := by rw [linesLeft, if_pos isOpen]
  rw [scanOpen?] at h
  split at h
  next => cases h
  next =>
    cases h
    refine left_lt_of_lines ?_
    rw [lines]
    exact Nat.lt_succ_self _
  next kind start stop next found =>
    obtain ⟨given, gives, rfl⟩ := Option.map_eq_some_iff.mp h
    obtain ⟨text, -, isGiven⟩ := Option.bind_eq_some_iff.mp gives
    cases isGiven
    refine .inr ?_
    cases isBreak : kind.isBreak with
    | true =>
      refine left_lt_of_lines ?_
      rw [lines]
      exact Nat.lt_succ_self _
    | false =>
      refine left_lt_of_bytes lines.symm ?_
      obtain ⟨inside, moved⟩ := lt_of_scanLine found isBreak
      rw [bytesLeft, bytesLeft, isOpen]
      exact Nat.sub_lt_sub_left inside moved

/-- The step lemma: a round is the last one, or leaves less. -/
theorem shrinks_of_round? {turn : Turn Tokenizer (Except ReadError Token × Tokenizer)}
    (h : s.round? = some turn) : s.Shrinks turn := by
  obtain ⟨feed, line, cursor, n, state⟩ := s
  cases state with
  | opened => exact shrinks_of_scanOpen? rfl h
  | finished =>
    cases h
    exact .inl rfl
  | pending =>
    cases feed with
    | nil =>
      cases h
      exact .inl rfl
    | cons read feed =>
      cases read with
      | error e =>
        cases h
        exact .inl trivial
      | ok text =>
        -- The line counts as left before it is read and while it is open.
        exact shrinks_of_scanOpen? (s := ⟨feed, text, 0, n + 1, .opened⟩) rfl h

/-! ## Scans -/

/-- What a scan gives behind a round. -/
def givenBehind? : Turn Tokenizer (Except ReadError Token × Tokenizer) →
    Option (Except ReadError Token × Tokenizer)
  | .again s => s.next?
  | .stop given => some given

theorem next?_of_opened (isOpen : s.state = .opened) :
    s.next? = s.scanOpen?.bind givenBehind? := by
  rw [next?, isOpen, scanOpen?]
  dsimp only
  cases scanLine (Utf8.encode s.line) s.cursor with
  | none => rfl
  | some scanned =>
    cases scanned with
    | joined => rfl
    | found kind start stop next =>
      dsimp only
      cases give? s.feed s.line s.linesRead kind start stop next <;> rfl

/-- A scan gives what its first round gives, or the scan behind it. -/
theorem next?_eq (s : Tokenizer) : s.next? = s.round?.bind givenBehind? := by
  obtain ⟨feed, line, cursor, n, state⟩ := s
  cases state with
  | opened => exact next?_of_opened rfl
  | finished => rfl
  | pending =>
    cases feed with
    | nil => rfl
    | cons read feed =>
      cases read with
      | error e => rfl
      | ok text => exact next?_of_opened (s := ⟨feed, text, 0, n + 1, .opened⟩) rfl

theorem pending_of_scanOpen? (h : s.scanOpen? = some (.again s')) : s'.state = .pending := by
  rw [scanOpen?] at h
  split at h
  next => cases h
  next =>
    cases h
    rfl
  next =>
    obtain ⟨given, -, stops⟩ := Option.map_eq_some_iff.mp h
    cases stops

/-- A scan that goes on reads the next line. -/
theorem pending_of_round? (h : s.round? = some (.again s')) : s'.state = .pending := by
  obtain ⟨feed, line, cursor, n, state⟩ := s
  cases state with
  | opened => exact pending_of_scanOpen? h
  | finished => cases h
  | pending =>
    cases feed with
    | nil => cases h
    | cons read feed =>
      cases read with
      | error e => cases h
      | ok text => exact pending_of_scanOpen? h

theorem Agrees.exists_round? {stream : TokenStream} (agrees : Agrees s stream) :
    ∃ turn, s.round? = some turn := by
  obtain ⟨s', gives, -⟩ := gives_next? agrees
  rw [next?_eq] at gives
  obtain ⟨turn, made, -⟩ := Option.bind_eq_some_iff.mp gives
  exact ⟨turn, made⟩

/-- The scan that started in `s` can go on in `s'`. -/
structure ScansOn (s s' : Tokenizer) : Prop where
  agrees : ∃ stream, Agrees s' stream
  same : s'.next? = s.next?
  less : s'.left ≤ s.left

/-- The run lemma: a scan stops with the next token. -/
theorem Agrees.scans {stream : TokenStream} (agrees : Agrees s stream) :
    ∃ given, Scans s given ∧ s.next? = some given ∧ (Ends given.1 ∨ given.2.left < s.left) := by
  have start : ScansOn s s := ⟨⟨stream, agrees⟩, rfl, le_refl _⟩
  refine Loop.exists_of_left left ?_ start
  rintro s' ⟨⟨stream', agrees'⟩, same, less⟩
  obtain ⟨turn, made⟩ := agrees'.exists_round?
  have gives := next?_eq s'
  rw [made] at gives
  refine ⟨turn, made, ?_⟩
  have shrinks := shrinks_of_round? made
  cases turn with
  | again s'' =>
    -- In front of a line that was not read every tokenizer agrees with some stream.
    obtain ⟨feed, line, cursor, n, state⟩ := s''
    obtain rfl : state = .pending := pending_of_round? made
    exact ⟨⟨⟨_, .pending⟩, gives.symm.trans same, shrinks.le.trans less⟩, shrinks⟩
  | stop given =>
    exact ⟨same.symm.trans gives, shrinks.imp_right fun fewer => fewer.trans_le less⟩

theorem Scans.unique {given' : Except ReadError Token × Tokenizer} (h : Scans s given)
    (h' : Scans s given') : given = given' :=
  Loop.unique h h' fun _ _ _ made made' => Option.some.inj (made.symm.trans made')

end Tokenizer

/-! ## Calls with their answers -/

/-- Only the end of a stream is of its kind. -/
def TokenStream.Proper : TokenStream → Prop
  | .finish _ => True
  | .token t rest => t.kind ≠ .finish ∧ rest.Proper
  | .failed _ _ rest => rest.Proper

theorem TokenStream.proper_ofTokens {front : List Token} {ts : TokenStream}
    (inFront : ∀ t ∈ front, t.kind ≠ .finish) (proper : ts.Proper) :
    (TokenStream.ofTokens front ts).Proper := by
  induction front with
  | nil => exact proper
  | cons t front ih =>
    obtain ⟨first, others⟩ := List.forall_mem_cons.mp inFront
    exact ⟨first, ih others⟩

theorem TokenStream.proper_after (n : Nat) (feed : Feed) : (TokenStream.after n feed).Proper := by
  induction feed generalizing n with
  | nil => trivial
  | cons read feed ih =>
    cases read with
    | error e => exact ih n
    | ok text =>
      exact proper_ofTokens (fun _ => (tiled_ofLine (n + 1) text).kind_ne_finish) (ih (n + 1))

theorem Tokenizer.Agrees.proper {s : Tokenizer} {stream : TokenStream} (h : Agrees s stream) :
    stream.Proper := by
  cases h with
  | pending => exact TokenStream.proper_after _ _
  | opened tiled =>
    refine TokenStream.proper_ofTokens (fun _ => tiled.kind_ne_finish) ?_
    exact TokenStream.proper_after _ _
  | finished => trivial

/-- A tokenizer, with what its calls gave so far. -/
structure Caller where
  tokenizer : Tokenizer
  answers : List (Except ReadError Token) := []

/-- No call was made behind an answer that ends the input. -/
def OnlyLastEnds (answers : List (Except ReadError Token)) : Prop :=
  ∀ a ∈ answers.dropLast, ¬ Ends a

namespace Caller

variable {c c' : Caller} {answer : Except ReadError Token} {stream : TokenStream}
  {next : Except ReadError Token × TokenStream}

/-- One call gives the answer. -/
def Calls (c : Caller) (answer : Except ReadError Token) (c' : Caller) : Prop :=
  ∃ s, c.tokenizer.Scans (answer, s) ∧ c' = ⟨s, c.answers ++ [answer]⟩

/-- A round of the loop that passes over breaks. -/
def SkipRound (c : Caller) : Turn Caller (Except ReadError Token × Caller) → Prop
  | .again c' => ∃ t, c.Calls (.ok t) c' ∧ t.kind.isBreak = true
  | .stop (answer, c') => c.Calls answer c' ∧ ∀ t, answer = .ok t → t.kind.isBreak = false

/-- This stream is left, and a call may be made: the input did not end. -/
structure Ready (c : Caller) (stream : TokenStream) : Prop where
  agrees : c.tokenizer.Agrees stream
  goesOn : ∀ a ∈ c.answers, ¬ Ends a

/-- The answer `next.1` was given, and the stream `next.2` is left. -/
structure Answered (c : Caller) (next : Except ReadError Token × TokenStream) (c' : Caller) :
    Prop where
  onlyLast : OnlyLastEnds c'.answers
  ready : ¬ Ends next.1 → c'.Ready next.2
  less : ¬ Ends next.1 → c'.tokenizer.left < c.tokenizer.left
  finished : ∀ t, next.1 = .ok t → t.kind = .finish → ∃ line, next.2 = .finish line

theorem Calls.unique {answer' : Except ReadError Token} {c'' : Caller} (h : c.Calls answer c')
    (h' : c.Calls answer' c'') : answer = answer' ∧ c' = c'' := by
  obtain ⟨s, scans, rfl⟩ := h
  obtain ⟨s', scans', rfl⟩ := h'
  cases scans.unique scans'
  exact ⟨rfl, rfl⟩

theorem skipRound_oneWay {turn turn' : Turn Caller (Except ReadError Token × Caller)}
    (made : c.SkipRound turn) (made' : c.SkipRound turn') : turn = turn' := by
  cases turn with
  | again c₁ =>
    obtain ⟨t, calls, isBreak⟩ := made
    cases turn' with
    | again c₂ =>
      obtain ⟨t', calls', -⟩ := made'
      rw [(calls.unique calls').2]
    | stop result =>
      rw [made'.2 t (calls.unique made'.1).1.symm] at isBreak
      cases isBreak
  | stop result =>
    cases turn' with
    | again c₂ =>
      obtain ⟨t, calls, isBreak⟩ := made'
      rw [made.2 t (made.1.unique calls).1] at isBreak
      cases isBreak
    | stop result' =>
      obtain ⟨answer, c₁⟩ := result
      obtain ⟨answer', c₂⟩ := result'
      obtain ⟨rfl, rfl⟩ := made.1.unique made'.1
      rfl

/-- A call gives the next token. -/
theorem Ready.calls (ready : c.Ready stream) :
    ∃ c', c.Calls stream.next.1 c' ∧ c.Answered stream.next c' := by
  obtain ⟨given, scans, gives, shrinks⟩ := ready.agrees.scans
  obtain ⟨s, next, agrees⟩ := Tokenizer.gives_next? ready.agrees
  obtain rfl : given = (stream.next.1, s) := Option.some.inj (gives.symm.trans next)
  refine ⟨_, ⟨s, scans, rfl⟩, ?_, fun goesOn => ⟨agrees, ?_⟩, shrinks.resolve_left, ?_⟩
  · intro a mem
    rw [List.dropLast_concat] at mem
    exact ready.goesOn a mem
  · exact List.forall_mem_append.mpr ⟨ready.goesOn, List.forall_mem_singleton.mpr goesOn⟩
  · have proper := ready.agrees.proper
    cases stream with
    | finish line => exact fun _ _ _ => ⟨line, rfl⟩
    | failed n e rest => exact nofun
    | token t rest =>
      rintro t' ⟨⟩ isFinish
      exact absurd isFinish proper.1

theorem Answered.of_le {start : Caller} (answered : c.Answered next c')
    (le : c.tokenizer.left ≤ start.tokenizer.left) : start.Answered next c' :=
  ⟨answered.onlyLast, answered.ready, fun goesOn => (answered.less goesOn).trans_le le,
    answered.finished⟩

theorem not_ends_of_isBreak {t : Token} (isBreak : t.kind.isBreak = true) : ¬ Ends (.ok t) := by
  intro isFinish
  rw [show t.kind = .finish from isFinish] at isBreak
  cases isBreak

/-- The loop that started in `c`, with this stream left, can go on in `c'`. -/
structure SkipsOn (c : Caller) (stream : TokenStream) (c' : Caller) : Prop where
  less : c'.tokenizer.left ≤ c.tokenizer.left
  same : ∃ rest, c'.Ready rest ∧ rest.nextSignificant = stream.nextSignificant

/-- The loop that passes over breaks stops with the next token that is none. -/
theorem Ready.skips (ready : c.Ready stream) : ∃ c',
    Loop SkipRound c (stream.nextSignificant.1, c') ∧ c.Answered stream.nextSignificant c' := by
  have start : c.SkipsOn stream c := ⟨le_refl _, stream, ready, rfl⟩
  obtain ⟨⟨answer, c'⟩, skips, rfl, answered⟩ : ∃ result, Loop SkipRound c result ∧
      result.1 = stream.nextSignificant.1 ∧ c.Answered stream.nextSignificant result.2 := by
    refine Loop.exists_of_left (fun c => c.tokenizer.left) ?_ start
    rintro c₁ ⟨le, rest, ready, same⟩
    obtain ⟨c₂, calls, answered⟩ := ready.calls
    have stops (isNext : rest.next = stream.nextSignificant)
        (noBreak : ∀ t, rest.next.1 = .ok t → t.kind.isBreak = false) :
        SkipRound c₁ (.stop (rest.next.1, c₂)) ∧ rest.next.1 = stream.nextSignificant.1 ∧
          c.Answered stream.nextSignificant c₂ :=
      ⟨⟨calls, noBreak⟩, congrArg (·.1) isNext, isNext ▸ answered.of_le le⟩
    cases rest with
    | finish line =>
      refine ⟨_, stops same ?_⟩
      rintro t ⟨⟩
      rfl
    | failed n e rest => exact ⟨_, stops same nofun⟩
    | token t rest =>
      rw [TokenStream.nextSignificant] at same
      split at same
      next isBreak =>
        have goesOn := not_ends_of_isBreak isBreak
        have less := answered.less goesOn
        have later : c.SkipsOn stream c₂ := ⟨less.le.trans le, rest, answered.ready goesOn, same⟩
        exact ⟨.again c₂, ⟨t, calls, isBreak⟩, later, less⟩
      next noBreak =>
        refine ⟨_, stops same ?_⟩
        rintro t' ⟨⟩
        exact Bool.eq_false_iff.mpr noBreak
  exact ⟨c', skips, answered⟩

end Caller

end ImportTidy
