import ImportTidy.Proofs.Readable

/-!
# The statements that a script begins

A script has the statements that were read to their end, and it can have what was settled
of one more.  `Script.begun` are all of them, and a session does something with each.

A statement starts behind a line break or a comment, and these are the last tokens of their
lines (`TokenStream.Rising`).  So no two statements begin on one line, and the lines on
which they begin strictly increase.  What was settled of a statement can be read again,
since the reader has its words (`Grammar.Trace.settled`).

Both are one invariant of the reader.  `Phase.Begins` says which line the next statement
begins on at the least, and which words a statement at hand has.  Every token keeps it
(`Phase.Begins.go`, `Phase.Begins.complete`), so every script is `Script.Orderly`.
-/

namespace ImportTidy

/-- What was settled of a statement that never became complete. -/
def Ending.settled? : Ending → Option Statement
  | .complete => none
  | .broken settled _ => settled

/-- The statements that a script completes, and the one that it leaves. -/
def Script.begun (script : Script) : List Statement :=
  script.statements ++ script.ending.settled?.toList

/-! ## The lines of tokens -/

/-- The first line on which the next token can stand. -/
def Token.nextLine (t : Token) : Nat := if t.kind.isBreak then t.line + 1 else t.line

theorem isBreak_wordKind (word : String) : (wordKind word).isBreak = false := by
  rw [wordKind]
  split
  · rfl
  · split
    · rfl
    · split <;> rfl

/-- The tokens stand on lines from `n` on.  None stands before the one in front of it, and
none on the line of a break in front of it. -/
def TokenStream.Rising : TokenStream → Nat → Prop
  | .finish line, n => n ≤ line
  | .token t rest, n => n ≤ t.line ∧ rest.Rising t.nextLine
  | .failed _ _ rest, n => rest.Rising n

namespace TokenStream.Rising

variable {rest : TokenStream} {m n : Nat}

theorem mono {tokens : TokenStream} (h : tokens.Rising m) (le : n ≤ m) : tokens.Rising n := by
  induction tokens with
  | finish line => exact Nat.le_trans le h
  | token t rest _ => exact ⟨Nat.le_trans le h.1, h.2⟩
  | failed k e rest ih => exact ih h

theorem breakToken (h : rest.Rising (n + 1)) {t : Token} (atLine : t.line = n)
    (isBreak : t.kind.isBreak = true) : (TokenStream.token t rest).Rising n := by
  refine ⟨Nat.le_of_eq atLine.symm, ?_⟩
  rwa [Token.nextLine, if_pos isBreak, atLine]

theorem wordToken (h : rest.Rising n) {t : Token} (atLine : t.line = n)
    (noBreak : t.kind.isBreak = false) : (TokenStream.token t rest).Rising n := by
  refine ⟨Nat.le_of_eq atLine.symm, ?_⟩
  rwa [Token.nextLine, noBreak, atLine]

theorem close (h : rest.Rising n) (word : Option PartialWord) (behind : List Char) :
    (TokenStream.ofTokens (PartialWord.close word n behind) rest).Rising n := by
  cases word with
  | none => exact h
  | some w => exact h.wordToken rfl (isBreak_wordKind _)

/-- The tokens of a line stand on it, and a break is the last of them. -/
theorem lineTokens (h : rest.Rising (n + 1)) (word : Option PartialWord) (col : Nat)
    (cs : List Char) : (TokenStream.ofTokens (lineTokens n word col cs) rest).Rising n := by
  induction cs generalizing word col with
  | nil =>
    rw [ImportTidy.lineTokens, ofTokens_append]
    exact (breakToken h rfl rfl).close word []
  | cons c cs ih =>
    rw [ImportTidy.lineTokens]
    split
    next => exact ih _ _
    next =>
      rw [ofTokens_append]
      refine close ?_ word (c :: cs)
      split
      next => exact ih _ _
      next =>
        split
        next => exact breakToken h rfl rfl
        next =>
          split
          next => exact breakToken h rfl rfl
          next =>
            split
            next => exact h.mono (Nat.le_succ n)
            next =>
              refine (ih _ _).wordToken rfl ?_
              dsimp only
              split
              · rfl
              · split <;> rfl

theorem after (n : Nat) (feed : Feed) : (TokenStream.after n feed).Rising (n + 1) := by
  induction feed generalizing n with
  | nil => exact Nat.le_refl _
  | cons read feed ih =>
    cases read with
    | error e => exact ih n
    | ok text => exact (ih (n + 1)).lineTokens none 0 text.toList

end TokenStream.Rising

/-! ## What was settled -/

namespace Grammar

variable {p : Phase} {line : Nat} {ws : List Word}

theorem Front.proper {es : List Entry} (h : Front es ws) (legible : Legible ws) :
    ∀ e ∈ es, e.Proper := by
  rcases h with ⟨rfl, -⟩ | ⟨front, comma, entries, -, rfl⟩
  · nofun
  · exact entries.proper legible.of_append.1

/-- What a reader has settled of a statement begins where the statement does, and can be
read again. -/
theorem Trace.settled {st : Statement} (h : Trace line ws p) (legible : Legible ws)
    (settled : p.settled = some st) : st.line = line ∧ st.Legible := by
  cases p with
  | outside fresh => cases settled
  | source l => cases settled
  | afterSource l m => cases settled
  | list s place =>
    obtain ⟨atLine, lead, rest, start, trace, rfl⟩ := h
    obtain ⟨legibleLead, legibleList⟩ := legible.of_append
    have source := start.proper legibleLead
    -- Only the entries that a comma completes are settled, and none between parentheses.
    have settles : ∀ {enclosed : Bool} {front behind : List Word},
        Inner enclosed rest (front ++ behind) → Front s.entries front →
          some (if enclosed then { s with entries := [] } else s) = some st →
            st.line = line ∧ st.Legible := by
      rintro enclosed front behind isInner isFront ⟨⟩
      cases enclosed with
      | false =>
        subst isInner
        exact ⟨atLine, source, isFront.proper legibleList.of_append.1⟩
      | true => exact ⟨atLine, source, nofun⟩
    cases place with
    | opening =>
      cases settled
      exact ⟨atLine, source, by simp [trace.1]⟩
    | entry enclosed =>
      obtain ⟨inner, isInner, isFront, -⟩ := trace
      have whole : Inner enclosed rest (inner ++ []) := by rwa [List.append_nil]
      exact settles whole isFront settled
    | named enclosed e =>
      obtain ⟨front, own, isInner, isFront, -⟩ := trace
      exact settles isInner isFront settled
    | behindAs enclosed n =>
      obtain ⟨front, w, isInner, isFront, -⟩ := trace
      exact settles isInner isFront settled
    | closed =>
      cases settled
      exact ⟨atLine, source, nofun⟩

end Grammar

/-! ## The lines of statements -/

open Grammar

/-- The statements that the script begins stand on rising lines from `low` on, and what was
settled of the last can be read again. -/
structure Script.Orderly (low : Nat) (script : Script) : Prop where
  low_le : ∀ st ∈ script.begun, low ≤ st.line
  rising : (script.begun.map Statement.line).Pairwise (· < ·)
  legible : ∀ st, script.ending.settled? = some st → st.Legible

namespace Script.Orderly

variable {low : Nat} {script : Script}

theorem empty : (⟨[], .complete⟩ : Script).Orderly low := ⟨nofun, .nil, nofun⟩

/-- A statement on a line before all others. -/
theorem cons {st : Statement} (h : script.Orderly (st.line + 1)) (le : low ≤ st.line) :
    (Script.cons st script).Orderly low := by
  have all : (Script.cons st script).begun = st :: script.begun := rfl
  refine ⟨?_, ?_, h.legible⟩
  · rw [all, List.forall_mem_cons]
    exact ⟨le, fun st' hst' => Nat.le_trans le (Nat.le_of_lt (h.low_le st' hst'))⟩
  · rw [all, List.map_cons, List.pairwise_cons, List.forall_mem_map]
    exact ⟨h.low_le, h.rising⟩

/-- What was settled where the script breaks. -/
theorem broken {p : Phase} {line : Nat} {ws : List Word} (h : Trace line ws p)
    (legible : Legible ws) (le : low ≤ line) (fault : SyntaxFault) :
    (Script.broken p fault).Orderly low := by
  have settled : ∀ st, p.settled = some st → st.line = line ∧ st.Legible :=
    fun _ => h.settled legible
  have all : (Script.broken p fault).begun = p.settled.toList := rfl
  refine ⟨fun st hst => ?_, ?_, fun st hst => (settled st hst).2⟩
  · rw [all, Option.mem_toList] at hst
    exact (settled st hst).1 ▸ le
  · rw [all]
    cases p.settled with
    | none => exact .nil
    | some st => exact List.pairwise_singleton _ _

end Script.Orderly

/-- At this phase no statement begins before the line `low`, where the next token stands
on the line `n` at the least.  A statement at hand begins in between. -/
inductive Phase.Begins (low n : Nat) : Phase → Prop where
  /-- Where no statement may start, the line has to end first. -/
  | outside {fresh : Bool} (le : low ≤ if fresh then n else n + 1) : Begins low n (.outside fresh)
  /-- The words of a statement at hand can be read. -/
  | inside {p : Phase} {line : Nat} {ws : List Word} (trace : Trace line ws p)
      (legible : Legible ws) (low_le : low ≤ line) (le : line ≤ n) : Begins low n p

namespace Phase.Begins

variable {low n : Nat} {p q : Phase} {t : Token}

/-- Behind a break a statement may start on the next line, and behind any other token only
behind the next break. -/
theorem behind (le : low ≤ t.line + 1) :
    Begins low t.nextLine (.outside t.kind.isBreak) := by
  refine .outside ?_
  rw [Token.nextLine]
  cases t.kind.isBreak <;> exact le

theorem go (h : p.Begins low n) (le : n ≤ t.line)
    (legible : t.kind = .identifier → IsIdentifier t.text) (move : p.step t = .go q) :
    q.Begins low t.nextLine := by
  have notBefore : t.line ≤ t.nextLine := by
    rw [Token.nextLine]
    split <;> omega
  have own : Legible [t.word] := by
    intro w hw
    rw [List.mem_singleton.mp hw]
    exact legible
  cases h with
  | @outside fresh low_le =>
    have low_le' : low ≤ t.line + 1 := by
      revert low_le
      cases fresh <;> simp <;> omega
    rcases step_outside fresh t with ⟨rfl, q', inside, starts⟩ | ⟨-, passes⟩
    · cases starts.symm.trans move
      exact .inside (trace_first inside move) own (Nat.le_trans low_le le) notBefore
    · cases passes.symm.trans move
      exact behind low_le'
  | @inside _ line ws trace legible low_le line_le =>
    rw [step_eq_onWord trace.inside] at move
    refine .inside (trace.go move) ?_ low_le (Nat.le_trans (Nat.le_trans line_le le) notBefore)
    exact fun w hw => (List.mem_append.mp hw).elim (legible w) (own w)

/-- A statement that becomes complete begins on a line before all others. -/
theorem complete (h : p.Begins low n) (le : n ≤ t.line) {st : Statement}
    (move : p.step t = .complete st q) :
    low ≤ st.line ∧ q.Begins (st.line + 1) t.nextLine := by
  cases h with
  | @outside fresh low_le =>
    rcases step_outside fresh t with ⟨rfl, q', -, starts⟩ | ⟨-, passes⟩
    · cases starts.symm.trans move
    · cases passes.symm.trans move
  | @inside _ line ws trace legible low_le line_le =>
    rw [step_eq_onWord trace.inside] at move
    obtain ⟨-, atLine, rfl⟩ := trace.complete move
    subst atLine
    exact ⟨low_le, behind (Nat.succ_le_succ (Nat.le_trans line_le le))⟩

theorem broken (h : p.Begins low n) (fault : SyntaxFault) :
    (Script.broken p fault).Orderly low := by
  cases h with
  | outside => exact ⟨nofun, .nil, nofun⟩
  | inside trace legible low_le _ => exact .broken trace legible low_le fault

end Phase.Begins

/-- The run lemma of the invariant. -/
theorem orderly_read {p : Phase} {low n : Nat} {tokens : TokenStream} (h : p.Begins low n)
    (rising : tokens.Rising n)
    (legible : tokens.Holds fun t => t.kind = .identifier → IsIdentifier t.text) :
    (Script.read p tokens).Orderly low := by
  induction tokens generalizing p low n with
  | finish line =>
    rw [Script.read]
    split
    next => exact .empty
    next st q move => exact .cons .empty (h.complete (t := .finish line) rising move).1
    next => exact h.broken _
  | token t rest ih =>
    obtain ⟨own, others⟩ := legible
    obtain ⟨le, rising⟩ := rising
    rw [Script.read]
    split
    next q move => exact ih (h.go le own move) rising others
    next st q move =>
      obtain ⟨low_le, behind⟩ := h.complete le move
      exact .cons (ih behind rising others) low_le
    next => exact h.broken _
  | failed k e rest _ => exact h.broken _

theorem orderly_ofFeed (feed : Feed) : (Script.ofFeed feed).Orderly 0 :=
  orderly_read (.outside (Nat.zero_le _)) (.after 0 feed) (legible_ofFeed feed)

theorem legible_begun (feed : Feed) : ∀ st ∈ (Script.ofFeed feed).begun, st.Legible := by
  refine List.forall_mem_append.mpr ⟨fun st hst => (proper_ofFeed feed st hst).toLegible, ?_⟩
  exact fun st hst => (orderly_ofFeed feed).legible st (Option.mem_toList.mp hst)

end ImportTidy
