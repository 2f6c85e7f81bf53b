import ImportTidy.Proofs.Grammar

/-!
# Traces of readers

A reader steps from phase to phase, and the grammar knows no phases.  `Trace` says which
words of a statement lead to a phase.  It is the invariant of a reader inside a
statement, and each kind of move has one lemma.

* A reader that goes on has one more word in its trace (`Trace.go`).
* A reader that completes a statement has spelled it (`Trace.complete`).
* A reader that refuses a token wants what the grammar wants (`Trace.refuse`).

From every phase inside a statement some words lead to its end (`exists_completion`), so
the words that lead there are pending (`Trace.pending`).
-/

namespace ImportTidy

namespace Grammar

/-! ## Phases behind words -/

/-- Outside a statement. -/
def isOutside : Phase → Bool
  | .outside _ => true
  | _ => false

/-- What a word does inside a statement, where the place of its token is not read. -/
def onWord (p : Phase) (w : Word) : Move := p.step ⟨w.kind, w.text, 0, 0, 0⟩

theorem step_eq_onWord {p : Phase} (inside : isOutside p = false) (t : Token) :
    p.step t = onWord p t.word := by
  cases p with
  | outside fresh => cases inside
  | source line => rfl
  | afterSource line m => rfl
  | list s place => rfl

/-- The phase behind words that complete nothing. -/
def take (p : Phase) : List Word → Option Phase
  | [] => some p
  | w :: ws =>
      match onWord p w with
      | .go q => take q ws
      | _ => none

theorem take_cons_of_go {p q : Phase} {w : Word} (h : onWord p w = .go q) (ws : List Word) :
    take p (w :: ws) = take q ws := by
  rw [take, h]

/-- Words that complete nothing lead on one by one. -/
theorem take_cons_iff {p q : Phase} {w : Word} {ws : List Word} :
    take p (w :: ws) = some q ↔ ∃ p', onWord p w = .go p' ∧ take p' ws = some q := by
  rw [take]
  cases onWord p w with
  | go p' => simp
  | complete s p' => simp
  | refuse e => simp

theorem take_append {p q : Phase} {ws : List Word} (h : take p ws = some q) (ws' : List Word) :
    take p (ws ++ ws') = take q ws' := by
  induction ws generalizing p with
  | nil =>
    cases h
    rfl
  | cons w ws ih =>
    obtain ⟨p', move, taken⟩ := take_cons_iff.mp h
    rw [List.cons_append, take_cons_of_go move]
    exact ih taken

/-! ## Traces -/

/-- Entries with a comma behind each. -/
def Front (es : List Entry) (ws : List Word) : Prop :=
  es = [] ∧ ws = [] ∨
    ∃ front comma, SpellsEntries es front ∧ comma.kind = .comma ∧ ws = front ++ [comma]

theorem Front.entries {es : List Entry} {ws own : List Word} {e : Entry} (h : Front es ws)
    (entry : SpellsEntry e own) : SpellsEntries (es ++ [e]) (ws ++ own) := by
  rcases h with ⟨rfl, rfl⟩ | ⟨front, comma, entries, isComma, rfl⟩
  · exact .one entry
  · have longer := SpellsEntries.more entries isComma entry
    simpa using longer

/-- `inner` are the words of a list so far, without the opening parenthesis and the
breaks behind it. -/
def Inner (enclosed : Bool) (ws inner : List Word) : Prop :=
  match enclosed with
  | false => ws = inner
  | true => ∃ left body, left.kind = .leftParen ∧ ws = left :: body ∧ withoutBreaks body = inner

theorem Inner.snoc {enclosed : Bool} {ws inner : List Word} (h : Inner enclosed ws inner)
    {w : Word} (noBreak : w.kind.isBreak = false) :
    Inner enclosed (ws ++ [w]) (inner ++ [w]) := by
  cases enclosed with
  | false => exact congrArg (· ++ [w]) h
  | true =>
    obtain ⟨left, body, isLeft, rfl, rfl⟩ := h
    exact ⟨left, body ++ [w], isLeft, rfl, by simp [withoutBreaks, noBreak]⟩

theorem Inner.skip {ws inner : List Word} (h : Inner true ws inner) {w : Word}
    (isBreak : w.kind.isBreak = true) : Inner true (ws ++ [w]) inner := by
  obtain ⟨left, body, isLeft, rfl, rfl⟩ := h
  exact ⟨left, body ++ [w], isLeft, rfl, by simp [withoutBreaks, isBreak]⟩

/-- The words of the list lead to this place behind these entries. -/
def PlaceTrace (es : List Entry) (ws : List Word) : ListPlace → Prop
  | .opening => es = [] ∧ ws = []
  | .entry enclosed =>
      ∃ inner, Inner enclosed ws inner ∧ Front es inner ∧ (enclosed = false → es ≠ [])
  | .named enclosed e =>
      ∃ front own, Inner enclosed ws (front ++ own) ∧ Front es front ∧ SpellsEntry e own
  | .behindAs enclosed n =>
      ∃ front w, Inner enclosed ws (front ++ [⟨.identifier, n⟩, w]) ∧ Front es front ∧
        w.kind = .asWord
  | .closed => ∀ next, SpellsList es ws next

/-- The words of a statement that starts on this line lead to this phase. -/
def Trace (line : Nat) (ws : List Word) : Phase → Prop
  | .outside _ => False
  | .source l => l = line ∧ ∃ f, f.kind = .fromWord ∧ ws = [f]
  | .afterSource l m => l = line ∧ ∃ f, f.kind = .fromWord ∧ ws = [f, ⟨.identifier, m⟩]
  | .list s place =>
      s.line = line ∧
        ∃ lead rest, SpellsLead s.origin lead ∧ PlaceTrace s.entries rest place ∧ ws = lead ++ rest

/-! ## What a word does at each place -/

variable {s s' : Statement} {kind : TokenKind} {text : String} {p q : Phase}

theorem go_opening (h : onWord (.list s .opening) ⟨kind, text⟩ = .go q) :
    kind = .identifier ∧ q = .list s (.named false { name := text }) ∨
      kind = .leftParen ∧ q = .list s (.entry true) := by
  cases kind <;> simp_all [onWord, Phase.step, Phase.stepList]

theorem go_entry {enclosed : Bool} (h : onWord (.list s (.entry enclosed)) ⟨kind, text⟩ = .go q) :
    enclosed = true ∧ kind.isBreak = true ∧ q = .list s (.entry enclosed) ∨
      kind = .identifier ∧ q = .list s (.named enclosed { name := text }) ∨
        kind = .rightParen ∧ enclosed = true ∧ s.entries ≠ [] ∧ q = .list s .closed := by
  cases enclosed <;> cases kind <;> simp_all [onWord, Phase.step, Phase.stepList, TokenKind.isBreak]
  split at h <;> simp_all

theorem go_named {enclosed : Bool} {e : Entry}
    (h : onWord (.list s (.named enclosed e)) ⟨kind, text⟩ = .go q) :
    enclosed = true ∧ kind.isBreak = true ∧ q = .list s (.named enclosed e) ∨
      kind = .asWord ∧ e.asName = none ∧ q = .list s (.behindAs enclosed e.name) ∨
        kind = .comma ∧ q = .list (s.add e) (.entry enclosed) ∨
          kind = .rightParen ∧ enclosed = true ∧ q = .list (s.add e) .closed := by
  cases enclosed <;> cases kind <;>
    simp_all [onWord, Phase.step, Phase.stepList, Phase.stepBehindEntry, TokenKind.isBreak]
  all_goals split at h <;> simp_all

theorem go_behindAs {enclosed : Bool} {n : String}
    (h : onWord (.list s (.behindAs enclosed n)) ⟨kind, text⟩ = .go q) :
    enclosed = true ∧ kind.isBreak = true ∧ q = .list s (.behindAs enclosed n) ∨
      kind = .identifier ∧ q = .list s (.named enclosed { name := n, asName := some text }) := by
  cases enclosed <;> cases kind <;> simp_all [onWord, Phase.step, Phase.stepList, TokenKind.isBreak]

theorem no_complete_entry {enclosed : Bool} :
    onWord (.list s (.entry enclosed)) ⟨kind, text⟩ ≠ .complete s' q := by
  cases enclosed <;> cases kind <;> simp [onWord, Phase.step, Phase.stepList, TokenKind.isBreak]
  split <;> simp

theorem no_complete_behindAs {enclosed : Bool} {n : String} :
    onWord (.list s (.behindAs enclosed n)) ⟨kind, text⟩ ≠ .complete s' q := by
  cases enclosed <;> cases kind <;> simp [onWord, Phase.step, Phase.stepList, TokenKind.isBreak]

theorem refuse_entry {enclosed : Bool} {e : Expectation}
    (h : onWord (.list s (.entry enclosed)) ⟨kind, text⟩ = .refuse e) :
    e = if enclosed then .importedName else s.entryWanted := by
  cases enclosed <;> cases kind <;> simp_all [onWord, Phase.step, Phase.stepList, TokenKind.isBreak]
  split at h <;> simp_all

theorem refuse_named {enclosed : Bool} {e' : Entry} {e : Expectation}
    (h : onWord (.list s (.named enclosed e')) ⟨kind, text⟩ = .refuse e) :
    enclosed = true ∧ e = .separator := by
  cases enclosed <;> cases kind <;>
    simp_all [onWord, Phase.step, Phase.stepList, Phase.stepBehindEntry, TokenKind.isBreak]
  all_goals split at h <;> simp_all

theorem refuse_behindAs {enclosed : Bool} {n : String} {e : Expectation}
    (h : onWord (.list s (.behindAs enclosed n)) ⟨kind, text⟩ = .refuse e) : e = .asName := by
  cases enclosed <;> cases kind <;> simp_all [onWord, Phase.step, Phase.stepList, TokenKind.isBreak]

theorem complete_named {enclosed : Bool} {e : Entry}
    (h : onWord (.list s (.named enclosed e)) ⟨kind, text⟩ = .complete s' q) :
    enclosed = false ∧ kind ≠ .comma ∧ (kind = .asWord → e.asName ≠ none) ∧ s' = s.add e ∧
      q = .outside kind.isBreak := by
  cases enclosed <;> cases kind <;>
    simp_all [onWord, Phase.step, Phase.stepList, Phase.stepBehindEntry, TokenKind.isBreak]
  all_goals split at h <;> simp_all

/-! ## A reader spells what it reads -/

/-- The step lemma of the invariant inside a list. -/
theorem PlaceTrace.go {place : ListPlace} {ws lead : List Word} {w : Word} {line : Nat}
    (h : PlaceTrace s.entries ws place) (start : SpellsLead s.origin lead) (atLine : s.line = line)
    (move : onWord (.list s place) w = .go q) :
    Trace line (lead ++ ws ++ [w]) q := by
  rw [List.append_assoc]
  obtain ⟨kind, text⟩ := w
  cases place with
  | opening =>
    obtain ⟨none, rfl⟩ := h
    rcases go_opening move with ⟨rfl, rfl⟩ | ⟨isLeft, rfl⟩
    · exact ⟨atLine, lead, _, start, ⟨[], _, rfl, .inl ⟨none, rfl⟩, .name⟩, rfl⟩
    · exact ⟨atLine, lead, _, start,
        ⟨[], ⟨_, [], isLeft, rfl, rfl⟩, .inl ⟨none, rfl⟩, nofun⟩, rfl⟩
  | entry enclosed =>
    obtain ⟨inner, isInner, front, some⟩ := h
    rcases go_entry move with ⟨rfl, isBreak, rfl⟩ | ⟨rfl, rfl⟩ | ⟨isRight, rfl, filled, rfl⟩
    · exact ⟨atLine, lead, _, start, ⟨inner, isInner.skip isBreak, front, some⟩, rfl⟩
    · exact ⟨atLine, lead, _, start, ⟨inner, _, isInner.snoc rfl, front, .name⟩, rfl⟩
    · refine ⟨atLine, lead, _, start, fun next => ?_, rfl⟩
      obtain ⟨left, body, isLeft, rfl, between⟩ := isInner
      rcases front with ⟨none, -⟩ | ⟨front, comma, entries, isComma, rfl⟩
      · exact absurd none filled
      · exact .enclosed isLeft entries (.inr ⟨comma, isComma, rfl⟩) between isRight
  | named enclosed e =>
    obtain ⟨front, own, isInner, isFront, entry⟩ := h
    rcases go_named move with ⟨rfl, isBreak, rfl⟩ | ⟨rfl, plain, rfl⟩ | ⟨rfl, rfl⟩ |
      ⟨isRight, rfl, rfl⟩
    · exact ⟨atLine, lead, _, start, ⟨front, own, isInner.skip isBreak, isFront, entry⟩, rfl⟩
    · cases entry with
      | renamed => cases plain
      | @name n =>
        have longer := isInner.snoc (w := ⟨.asWord, text⟩) rfl
        exact ⟨atLine, lead, _, start, ⟨front, _, by simpa using longer, isFront, rfl⟩, rfl⟩
    · refine ⟨atLine, lead, _, start, ⟨_, isInner.snoc rfl, ?_, fun _ => ?_⟩, rfl⟩
      · exact .inr ⟨front ++ own, _, isFront.entries entry, rfl, rfl⟩
      · simp [Statement.add]
    · refine ⟨atLine, lead, _, start, fun next => ?_, rfl⟩
      obtain ⟨left, body, isLeft, rfl, between⟩ := isInner
      exact .enclosed isLeft (isFront.entries entry) (.inl rfl) (by simpa using between) isRight
  | behindAs enclosed n =>
    obtain ⟨front, a, isInner, isFront, isAs⟩ := h
    rcases go_behindAs move with ⟨rfl, isBreak, rfl⟩ | ⟨rfl, rfl⟩
    · exact ⟨atLine, lead, _, start, ⟨front, a, isInner.skip isBreak, isFront, isAs⟩, rfl⟩
    · have longer := isInner.snoc (w := ⟨.identifier, text⟩) rfl
      exact ⟨atLine, lead, _, start, ⟨front, [_, a, _], by simpa using longer, isFront,
        .renamed isAs⟩, rfl⟩
  | closed => cases move

/-- A reader that goes on inside a statement has one more word in its trace. -/
theorem Trace.go {line : Nat} {ws : List Word} {w : Word} (h : Trace line ws p)
    (move : onWord p w = .go q) : Trace line (ws ++ [w]) q := by
  cases p with
  | outside fresh => cases h
  | source l =>
    obtain ⟨rfl, f, isFrom, rfl⟩ := h
    obtain ⟨kind, text⟩ := w
    cases kind <;> cases move
    exact ⟨rfl, f, isFrom, rfl⟩
  | afterSource l m =>
    obtain ⟨rfl, f, isFrom, rfl⟩ := h
    obtain ⟨kind, text⟩ := w
    cases kind <;> cases move
    exact ⟨rfl, [f, ⟨.identifier, m⟩, ⟨.importWord, text⟩], [], .source isFrom rfl, ⟨rfl, rfl⟩, rfl⟩
  | list s place =>
    obtain ⟨atLine, lead, rest, start, trace, rfl⟩ := h
    exact trace.go start atLine move

/-- A reader that completes a statement has spelled it. -/
theorem Trace.complete {line : Nat} {ws : List Word} {w : Word} (h : Trace line ws p)
    (move : onWord p w = .complete s q) :
    Spells s.origin s.entries ws w ∧ s.line = line ∧ q = .outside w.kind.isBreak := by
  cases p with
  | outside fresh => cases h
  | source l =>
    obtain ⟨kind, text⟩ := w
    cases kind <;> cases move
  | afterSource l m =>
    obtain ⟨kind, text⟩ := w
    cases kind <;> cases move
  | list s₀ place =>
    obtain ⟨atLine, lead, rest, start, trace, rfl⟩ := h
    cases place with
    | opening =>
      obtain ⟨kind, text⟩ := w
      cases kind <;> cases move
    | entry enclosed =>
      exact (no_complete_entry move).elim
    | named enclosed e =>
      obtain ⟨rfl, noComma, noAs, rfl, rfl⟩ := complete_named move
      obtain ⟨front, own, rfl, isFront, entry⟩ := trace
      refine ⟨.intro start (.bare (isFront.entries entry) noComma fun isAs => ?_), atLine, rfl⟩
      exact ⟨e, List.getLast?_concat, noAs isAs⟩
    | behindAs enclosed n =>
      exact (no_complete_behindAs move).elim
    | closed =>
      cases move
      exact ⟨.intro start (trace w), atLine, rfl⟩

/-! ## A reader wants what the grammar wants -/

theorem SpellsLead.withoutBreaks_eq {o : Origin} {lead : List Word} (h : SpellsLead o lead) :
    withoutBreaks lead = lead := by
  cases h with
  | plain isImport => simp [withoutBreaks, isImport, TokenKind.isBreak]
  | source isFrom isImport => simp [withoutBreaks, isFrom, isImport, TokenKind.isBreak]

/-- A bare list has names, `as` and commas only. -/
def IsBareKind (kind : TokenKind) : Prop := kind = .identifier ∨ kind = .asWord ∨ kind = .comma

theorem SpellsEntry.bare {e : Entry} {own : List Word} (h : SpellsEntry e own) :
    ∀ w ∈ own, IsBareKind w.kind := by
  cases h with
  | name => simp [IsBareKind]
  | renamed isAs => simp [IsBareKind, isAs]

theorem SpellsEntries.bare {es : List Entry} {ws : List Word} (h : SpellsEntries es ws) :
    ∀ w ∈ ws, IsBareKind w.kind := by
  induction h with
  | one entry => exact entry.bare
  | more _ isComma entry ih =>
    intro w hw
    rcases List.mem_append.mp hw with hw | hw
    · exact ih w hw
    · rcases List.mem_cons.mp hw with rfl | hw
      · exact .inr (.inr isComma)
      · exact entry.bare w hw

theorem Front.bare {es : List Entry} {ws : List Word} (h : Front es ws) :
    ∀ w ∈ ws, IsBareKind w.kind := by
  rcases h with ⟨-, rfl⟩ | ⟨front, comma, entries, isComma, rfl⟩
  · simp
  · intro w hw
    rcases List.mem_append.mp hw with hw | hw
    · exact entries.bare w hw
    · rw [List.mem_singleton.mp hw]
      exact .inr (.inr isComma)

theorem withoutBreaks_of_bare {ws : List Word} (h : ∀ w ∈ ws, IsBareKind w.kind) :
    withoutBreaks ws = ws := by
  refine List.filter_eq_self.mpr fun w hw => ?_
  rcases h w hw with isName | isAs | isComma
  · simp [isName, TokenKind.isBreak]
  · simp [isAs, TokenKind.isBreak]
  · simp [isComma, TokenKind.isBreak]

/-- The kinds of a list so far: the opening parenthesis if there is one, and the kinds
of `inner`. -/
theorem Inner.kinds {enclosed : Bool} {ws inner : List Word} (h : Inner enclosed ws inner)
    (bare : ∀ w ∈ inner, IsBareKind w.kind) :
    kindsOf ws = (if enclosed then [.leftParen] else []) ++ inner.map Word.kind := by
  cases enclosed with
  | false =>
    cases h
    rw [kindsOf, withoutBreaks_of_bare bare]
    rfl
  | true =>
    obtain ⟨left, body, isLeft, rfl, rfl⟩ := h
    simp [kindsOf, withoutBreaks, isLeft, TokenKind.isBreak]

theorem not_mem_of_bare {ws : List Word} (h : ∀ w ∈ ws, IsBareKind w.kind) :
    TokenKind.leftParen ∉ ws.map Word.kind := by
  intro found
  obtain ⟨w, hw, isLeft⟩ := List.mem_map.mp found
  rcases h w hw with isName | isAs | isComma
  · simp [isName] at isLeft
  · simp [isAs] at isLeft
  · simp [isComma] at isLeft

theorem SpellsEntry.last {e : Entry} {own : List Word} (h : SpellsEntry e own) :
    (own.map Word.kind).getLast? = some .identifier := by
  cases h with
  | name => rfl
  | renamed _ => rfl

/-- What is wanted inside a list.  Without words of the list its lead decides. -/
theorem wanted_list {o : Origin} {lead ws inner : List Word} {enclosed : Bool}
    (start : SpellsLead o lead) (isInner : Inner enclosed ws inner)
    (bare : ∀ w ∈ inner, IsBareKind w.kind) :
    wanted (lead ++ ws) =
      wantedBehind (o ≠ .plain) enclosed ((inner.map Word.kind).getLast?.getD .importWord) := by
  have kinds : kindsOf (lead ++ ws) =
      lead.map Word.kind ++ ((if enclosed then [.leftParen] else []) ++ inner.map Word.kind) := by
    rw [← isInner.kinds bare, kindsOf, withoutBreaks_append, start.withoutBreaks_eq,
      List.map_append]
    rfl
  have noLeft := not_mem_of_bare bare
  unfold wanted
  rw [kinds]
  generalize inner.map Word.kind = behind at noLeft ⊢
  cases start with
  | plain isImport =>
    cases enclosed with
    | false => simp [isImport, noLeft, List.getLast?_cons]
    | true =>
      simp only [isImport, List.map_cons, List.map_nil, List.getLast?_append]
      cases behind.getLast? <;> simp [wantedBehind]
  | source isFrom isImport =>
    cases enclosed with
    | false => simp [isFrom, isImport, noLeft, List.getLast?_cons]
    | true =>
      simp only [isFrom, isImport, List.map_cons, List.map_nil, List.getLast?_append]
      cases behind.getLast? <;> simp [wantedBehind]

/-- What an entry wants is what the grammar wants behind the opening parenthesis, behind
a comma, and in front of a bare list. -/
theorem wanted_entry {lead ws inner : List Word} {enclosed : Bool} {es : List Entry}
    (start : SpellsLead s.origin lead) (isInner : Inner enclosed ws inner)
    (isFront : Front es inner) :
    wanted (lead ++ ws) = if enclosed then .importedName else s.entryWanted := by
  rw [wanted_list start isInner isFront.bare]
  have wants : wantedBehind (s.origin ≠ .plain) enclosed .importWord =
      if enclosed then .importedName else s.entryWanted := by
    cases enclosed <;> cases origin : s.origin <;>
      simp [wantedBehind, Statement.entryWanted, origin]
  rcases isFront with ⟨-, rfl⟩ | ⟨front, comma, -, isComma, rfl⟩
  · exact wants
  · rw [← wants]
    simp [isComma, wantedBehind]

/-- A reader that refuses a token wants what the grammar wants. -/
theorem Trace.refuse {line : Nat} {ws : List Word} {w : Word} {e : Expectation}
    (h : Trace line ws p) (move : onWord p w = .refuse e) : e = wanted ws := by
  obtain ⟨kind, text⟩ := w
  cases p with
  | outside fresh => cases h
  | source l =>
    obtain ⟨rfl, f, isFrom, rfl⟩ := h
    have wants : wanted [f] = .moduleToImportFrom := by
      simp [wanted, kindsOf, withoutBreaks, isFrom, TokenKind.isBreak, wantedBehind]
    cases kind <;> cases move <;> exact wants.symm
  | afterSource l m =>
    obtain ⟨rfl, f, isFrom, rfl⟩ := h
    have wants : wanted [f, ⟨.identifier, m⟩] = .importWord := by
      simp [wanted, kindsOf, withoutBreaks, isFrom, TokenKind.isBreak, wantedBehind]
    cases kind <;> cases move <;> exact wants.symm
  | list s place =>
    obtain ⟨atLine, lead, rest, start, trace, rfl⟩ := h
    cases place with
    | opening =>
      obtain ⟨none, rfl⟩ := trace
      have nothing : Inner false [] [] := rfl
      rw [wanted_entry start nothing (.inl ⟨none, rfl⟩)]
      cases kind <;> cases move <;> rfl
    | entry enclosed =>
      obtain ⟨inner, isInner, isFront, -⟩ := trace
      rw [wanted_entry start isInner isFront]
      exact refuse_entry move
    | named enclosed e' =>
      obtain ⟨front, own, isInner, isFront, entry⟩ := trace
      obtain ⟨rfl, rfl⟩ := refuse_named move
      rw [wanted_list start isInner (isFront.entries entry).bare, List.map_append,
        List.getLast?_append, entry.last]
      rfl
    | behindAs enclosed n =>
      obtain ⟨front, a, isInner, isFront, isAs⟩ := trace
      have bare : ∀ w ∈ front ++ [⟨.identifier, n⟩, a], IsBareKind w.kind := by
        intro w hw
        rcases List.mem_append.mp hw with hw | hw
        · exact isFront.bare w hw
        · simp only [List.mem_cons, List.not_mem_nil, or_false] at hw
          rcases hw with rfl | rfl
          · exact .inl rfl
          · exact .inr (.inl isAs)
      rw [refuse_behindAs move, wanted_list start isInner bare]
      simp [isAs, wantedBehind]
    | closed => cases move

/-! ## Pending words -/

theorem Trace.inside {line : Nat} {ws : List Word} (h : Trace line ws p) :
    isOutside p = false := by
  cases p with
  | outside fresh => cases h
  | source l => rfl
  | afterSource l m => rfl
  | list s place => rfl

/-- The run lemma of the invariant. -/
theorem Trace.take {line : Nat} {ws ws' : List Word} (h : Trace line ws p)
    (taken : Grammar.take p ws' = some q) : Trace line (ws ++ ws') q := by
  induction ws' generalizing p ws with
  | nil =>
    cases taken
    simpa using h
  | cons w ws' ih =>
    obtain ⟨p', move, taken⟩ := take_cons_iff.mp taken
    simpa using ih (h.go move) taken

/-- From everywhere inside a statement some words lead to its end. -/
theorem exists_completion (inside : isOutside p = false) :
    ∃ more next q s q', take p more = some q ∧ onWord q next = .complete s q' := by
  let name : Word := ⟨.identifier, ""⟩
  let right : Word := ⟨.rightParen, ""⟩
  let lineBreak : Word := ⟨.lineBreak, ""⟩
  cases p with
  | outside fresh => cases inside
  | source l => exact ⟨[name, ⟨.importWord, ""⟩, name], lineBreak, _, _, _, rfl, rfl⟩
  | afterSource l m => exact ⟨[⟨.importWord, ""⟩, name], lineBreak, _, _, _, rfl, rfl⟩
  | list s place =>
    cases place with
    | opening => exact ⟨[name], lineBreak, _, _, _, rfl, rfl⟩
    | entry enclosed =>
      cases enclosed with
      | false => exact ⟨[name], lineBreak, _, _, _, rfl, rfl⟩
      | true => exact ⟨[name, right], lineBreak, _, _, _, rfl, rfl⟩
    | named enclosed e =>
      cases enclosed with
      | false => exact ⟨[], lineBreak, _, _, _, rfl, rfl⟩
      | true => exact ⟨[right], lineBreak, _, _, _, rfl, rfl⟩
    | behindAs enclosed n =>
      cases enclosed with
      | false => exact ⟨[name], lineBreak, _, _, _, rfl, rfl⟩
      | true => exact ⟨[name, right], lineBreak, _, _, _, rfl, rfl⟩
    | closed => exact ⟨[], lineBreak, _, _, _, rfl, rfl⟩

theorem Trace.pending {line : Nat} {ws : List Word} (h : Trace line ws p) : Pending ws := by
  obtain ⟨more, next, q, s, q', taken, completes⟩ := exists_completion h.inside
  exact ⟨s.origin, s.entries, more, next, ((h.take taken).complete completes).1⟩

end Grammar

end ImportTidy
