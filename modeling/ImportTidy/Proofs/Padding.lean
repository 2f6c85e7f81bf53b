import ImportTidy.Proofs.Grammar.Trace
import ImportTidy.Proofs.Lines
import ImportTidy.Proofs.Renumbering

/-!
# Streams with more breaks

Behind a break another break does nothing.  There the reader is outside statements, where a
statement may start, or it is in parentheses, where breaks are passed over
(`Phase.step_of_rests`).

`TokenStream.Padded f` relates a stream to one whose lines have other numbers, and which may have
more breaks behind breaks.  The scripts of the two differ in the numbers only
(`TokenStream.Padded.read`), by an induction over the streams whose invariant is that the reader
rests behind each break.

The stream of an input that starts on another line is such a stream, with no break more
(`TokenStream.Padded.after`).
-/

namespace ImportTidy

/-! ## Breaks behind breaks -/

/-- A break does nothing here: the reader is outside, where a statement may start, or it is in
parentheses. -/
def Phase.rests : Phase → Bool
  | .outside fresh => fresh
  | .list _ (.entry enclosed) => enclosed
  | .list _ (.named enclosed _) => enclosed
  | .list _ (.behindAs enclosed _) => enclosed
  | _ => false

theorem Phase.rests_renumber (f : Nat → Nat) (p : Phase) : (p.renumber f).rests = p.rests := by
  cases p with
  | list st place => cases place <;> rfl
  | _ => rfl

theorem Phase.step_of_rests {p : Phase} (rests : p.rests = true) {t : Token}
    (isBreak : t.kind.isBreak = true) : p.step t = .go p := by
  obtain ⟨kind, text, line, column, stride⟩ := t
  cases p with
  | outside fresh =>
    cases fresh with
    | false => cases rests
    | true => cases kind <;> cases isBreak <;> rfl
  | source l => cases rests
  | afterSource l m => cases rests
  | list st place =>
    cases place with
    | opening => cases rests
    | entry enclosed =>
      obtain rfl : enclosed = true := rests
      cases kind <;> cases isBreak <;> rfl
    | named enclosed e =>
      obtain rfl : enclosed = true := rests
      cases kind <;> cases isBreak <;> rfl
    | behindAs enclosed name =>
      obtain rfl : enclosed = true := rests
      cases kind <;> cases isBreak <;> rfl
    | closed => cases rests

/-- Behind a break the reader rests. -/
theorem Phase.rests_of_go {p q : Phase} {t : Token} (isBreak : t.kind.isBreak = true)
    (move : p.step t = .go q) : q.rests = true := by
  obtain ⟨kind, text, line, column, stride⟩ := t
  cases p with
  | outside fresh => cases kind <;> cases isBreak <;> cases fresh <;> cases move <;> rfl
  | source l => cases kind <;> cases isBreak <;> cases move
  | afterSource l m => cases kind <;> cases isBreak <;> cases move
  | list st place =>
    cases place with
    | opening => cases kind <;> cases isBreak <;> cases move
    | entry enclosed => cases enclosed <;> cases kind <;> cases isBreak <;> cases move <;> rfl
    | named enclosed e => cases enclosed <;> cases kind <;> cases isBreak <;> cases move <;> rfl
    | behindAs enclosed name =>
      cases enclosed <;> cases kind <;> cases isBreak <;> cases move <;> rfl
    | closed => cases move

/-- Behind a statement the reader is outside, and the token that ended it decides whether another
one may start. -/
theorem Phase.outside_of_complete {p q : Phase} {t : Token} {st : Statement}
    (move : p.step t = .complete st q) : q = .outside t.kind.isBreak := by
  obtain ⟨kind, text, line, column, stride⟩ := t
  cases p with
  | outside fresh => cases kind <;> cases fresh <;> cases move
  | source l => cases kind <;> cases move
  | afterSource l m => cases kind <;> cases move
  | list s place =>
    cases place with
    | opening => cases kind <;> cases move
    | entry enclosed => exact (Grammar.no_complete_entry move).elim
    | named enclosed e => exact (Grammar.complete_named move).2.2.2.2
    | behindAs enclosed name => exact (Grammar.no_complete_behindAs move).elim
    | closed =>
      cases move
      rfl

/-! ## Padded streams -/

namespace TokenStream

variable {f : Nat → Nat} {fresh : Bool} {ts ts' : TokenStream}

/-- The second stream is the first one with other line numbers, and with more breaks behind
breaks.  `fresh` says that what stands in front of both is a break, or nothing.

A failed read is the end of what a reader looks at. -/
inductive Padded (f : Nat → Nat) : Bool → TokenStream → TokenStream → Prop where
  | finish {fresh : Bool} (line : Nat) : Padded f fresh (.finish line) (.finish (f line))
  | token {fresh : Bool} (t : Token) {ts ts' : TokenStream} (rest : Padded f t.kind.isBreak ts ts') :
      Padded f fresh (.token t ts) (.token (t.renumber f) ts')
  | failed {fresh : Bool} {n n' : Nat} (e : ReadError) {ts ts' : TokenStream} :
      Padded f fresh (.failed n e ts) (.failed n' (e.renumber f) ts')
  /-- One break more. -/
  | pad {t : Token} {ts ts' : TokenStream} (isBreak : t.kind.isBreak = true)
      (rest : Padded f true ts ts') : Padded f true ts (.token t ts')

namespace Padded

/-- The scripts differ in the line numbers only. -/
theorem read (h : Padded f fresh ts ts') {p : Phase} (rests : fresh = true → p.rests = true) :
    Script.read (p.renumber f) ts' = (Script.read p ts).renumber f := by
  induction h generalizing p with
  | finish line =>
    have step := Phase.step_renumber f p (.finish line)
    change (p.renumber f).step (.finish (f line)) = _ at step
    rw [Script.read, Script.read, step]
    cases p.step (.finish line) with
    | go q => rfl
    | complete st q => rfl
    | refuse expected => exact Script.broken_renumber f p ((Token.finish line).refused expected)
  | token t _ ih =>
    rw [Script.read, Script.read, Phase.step_renumber]
    cases move : p.step t with
    | go q => exact ih fun isBreak => Phase.rests_of_go isBreak move
    | complete st q =>
      refine congrArg (Script.cons (st.renumber f)) (ih fun isBreak => ?_)
      rw [Phase.outside_of_complete move, isBreak]
      rfl
    | refuse expected => exact Script.broken_renumber f p (t.refused expected)
  | failed e => exact Script.broken_renumber f p (.unread e)
  | pad isBreak _ ih =>
    have rests' : (p.renumber f).rests = true := by rw [Phase.rests_renumber, rests rfl]
    rw [Script.read, Phase.step_of_rests rests' isBreak]
    exact ih rests

/-! ## Tokens and inputs -/

/-- What stands in front of the tokens behind these. -/
def breakBehind (fresh : Bool) : List Token → Bool
  | [] => fresh
  | t :: front => breakBehind t.kind.isBreak front

theorem breakBehind_concat (fresh : Bool) (front : List Token) (t : Token) :
    breakBehind fresh (front ++ [t]) = t.kind.isBreak := by
  induction front generalizing fresh with
  | nil => rfl
  | cons u front ih => exact ih u.kind.isBreak

/-- The same tokens in front, with other line numbers. -/
theorem ofTokens (front : List Token) (h : Padded f (breakBehind fresh front) ts ts') :
    Padded f fresh (.ofTokens front ts) (.ofTokens (front.map (Token.renumber f)) ts') := by
  induction front generalizing fresh with
  | nil => exact h
  | cons t front ih => exact .token t (ih h)

/-- The stream of an input that starts on another line. -/
theorem after (limit : UInt64) {n n' : Nat} (moved : ∀ i, f (n + 1 + i) = n' + 1 + i)
    (bytes : List UInt8) :
    Padded f fresh (.after n (Feed.after limit n bytes))
      (.after n' (Feed.after limit n' bytes)) := by
  induction n, bytes using Feed.after.induct limit generalizing n' fresh with
  | case1 n bytes rest cut =>
    have first : f (n + 1) = n' + 1 := moved 0
    rw [Feed.after_of_no_cut cut, Feed.after_of_no_cut cut, TokenStream.after, TokenStream.after,
      ← first]
    exact .finish (n + 1)
  | case2 n bytes b line rest cut ih =>
    have first : f (n + 1) = n' + 1 := moved 0
    have others : ∀ i, f (n + 1 + 1 + i) = n' + 1 + 1 + i := by
      intro i
      have next := moved (1 + i)
      rwa [← Nat.add_assoc, ← Nat.add_assoc] at next
    have judged := judgeLine_renumber f limit (n + 1) (b :: line)
    rw [first] at judged
    rw [Feed.after_of_cut cut, Feed.after_of_cut cut, judged]
    cases judgeLine limit (n + 1) (b :: line) with
    | error e => exact .failed e
    | ok text =>
      have tokens := lineTokens_renumber f (n + 1) none 0 text.toList
      rw [first] at tokens
      show Padded f fresh (.ofTokens (lineTokens (n + 1) none 0 text.toList) _)
        (.ofTokens (lineTokens (n' + 1) none 0 text.toList) _)
      rw [tokens]
      exact ofTokens _ (ih others)

end Padded

end TokenStream

end ImportTidy
