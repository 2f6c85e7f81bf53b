import ImportTidy.Session

/-!
# Sources with other line numbers

Lines are carried along and never looked at.  So a source whose lines have other numbers is
read and gathered as before, and what comes of it has the other numbers.

`renumber f` gives every line of a thing the number `f` of its own: the lines of a fault, a
token, a statement, and whatever holds some of these.  There is one law for the tokens of a line
(`lineTokens_renumber`), one for a step of the reader (`Phase.step_renumber`), and one for the
session (`Session.follow_renumberFrom`).

A session keeps the groups that it had before, and these keep their lines.
`Session.renumberFrom` changes the lines of the groups from a place on.
-/

namespace ImportTidy

variable (f : Nat → Nat)

/-! ## Reads and tokens -/

/-- The read error with another line number. -/
def ReadError.renumber : ReadError → ReadError
  | .tooLong line limit => .tooLong (f line) limit
  | .io cause => .io cause

theorem judgeLine_renumber (limit : UInt64) (number : Nat) (line : List UInt8) :
    judgeLine limit (f number) line =
      (judgeLine limit number line).mapError (ReadError.renumber f) := by
  unfold judgeLine
  split
  · rfl
  · split <;> rfl

/-- The token with another line number. -/
def Token.renumber (t : Token) : Token := { t with line := f t.line }

theorem PartialWord.close_renumber (word : Option PartialWord) (line : Nat) (behind : List Char) :
    PartialWord.close word (f line) behind =
      (PartialWord.close word line behind).map (Token.renumber f) := by
  cases word <;> rfl

theorem lineTokens_renumber (line : Nat) (word : Option PartialWord) (column : Nat)
    (cs : List Char) :
    lineTokens (f line) word column cs =
      (lineTokens line word column cs).map (Token.renumber f) := by
  induction cs generalizing word column with
  | nil => simp [lineTokens, PartialWord.close_renumber, Token.renumber]
  | cons c cs ih =>
    rw [lineTokens, lineTokens]
    split
    next => exact ih _ _
    next =>
      rw [List.map_append, PartialWord.close_renumber]
      refine congrArg _ ?_
      split
      next => exact ih _ _
      next =>
        split
        next => rfl
        next =>
          split
          next => rfl
          next =>
            split
            next => rfl
            next => exact congrArg _ (ih _ _)

/-! ## The reader -/

/-- The statement with another line number. -/
def Statement.renumber (st : Statement) : Statement := { st with line := f st.line }

/-- The fault with another line number. -/
def SyntaxFault.renumber : SyntaxFault → SyntaxFault
  | .unexpected line column expected found => .unexpected (f line) column expected found
  | .unread e => .unread (e.renumber f)

/-- The ending with other line numbers for what was settled and for the fault. -/
def Ending.renumber : Ending → Ending
  | .complete => .complete
  | .broken settled fault => .broken (settled.map (Statement.renumber f)) (fault.renumber f)

/-- The script with other line numbers. -/
def Script.renumber (script : Script) : Script :=
  ⟨script.statements.map (Statement.renumber f), script.ending.renumber f⟩

/-- The phase with another line number for the statement at hand. -/
def Phase.renumber : Phase → Phase
  | .outside fresh => .outside fresh
  | .source line => .source (f line)
  | .afterSource line m => .afterSource (f line) m
  | .list st place => .list (st.renumber f) place

/-- The move with other line numbers for its statement and its phase. -/
def Move.renumber : Move → Move
  | .go p => .go (p.renumber f)
  | .complete st p => .complete (st.renumber f) (p.renumber f)
  | .refuse expected => .refuse expected

theorem Phase.stepBehindEntry_renumber (st : Statement) (e : Entry) (enclosed : Bool)
    (kind : TokenKind) :
    Phase.stepBehindEntry (st.renumber f) e enclosed kind =
      (Phase.stepBehindEntry st e enclosed kind).renumber f := by
  cases enclosed <;> cases kind <;> rfl

theorem Phase.stepList_renumber (st : Statement) (place : ListPlace) (kind : TokenKind)
    (text : String) :
    Phase.stepList (st.renumber f) place kind text =
      (Phase.stepList st place kind text).renumber f := by
  cases place with
  | opening => cases kind <;> rfl
  | entry enclosed =>
    simp only [Phase.stepList]
    split
    next => rfl
    next =>
      cases kind with
      | rightParen =>
        show (if enclosed && !st.entries.isEmpty then _ else _) = _
        split <;> rfl
      | _ => rfl
  | named enclosed e =>
    simp only [Phase.stepList]
    split
    next => rfl
    next =>
      split
      next => rfl
      next => exact Phase.stepBehindEntry_renumber f st e enclosed kind
  | behindAs enclosed name =>
    simp only [Phase.stepList]
    split
    next => rfl
    next => cases kind <;> rfl
  | closed => rfl

/-- A token on another line does the same. -/
theorem Phase.step_renumber (p : Phase) (t : Token) :
    (p.renumber f).step (t.renumber f) = (p.step t).renumber f := by
  cases p with
  | outside fresh =>
    have kind : (t.renumber f).kind = t.kind := rfl
    simp only [Phase.step, Phase.renumber, kind]
    split
    next => rfl
    next => split <;> rfl
  | source line =>
    obtain ⟨kind, text, l, column, stride⟩ := t
    cases kind <;> rfl
  | afterSource line m =>
    obtain ⟨kind, text, l, column, stride⟩ := t
    cases kind <;> rfl
  | list st place => exact Phase.stepList_renumber f st place t.kind t.text

theorem Phase.settled_renumber (p : Phase) :
    (p.renumber f).settled = p.settled.map (Statement.renumber f) := by
  cases p with
  | outside fresh => rfl
  | source line => rfl
  | afterSource line m => rfl
  | list st place =>
    cases place with
    | opening => rfl
    | entry enclosed => cases enclosed <;> rfl
    | named enclosed e => cases enclosed <;> rfl
    | behindAs enclosed name => cases enclosed <;> rfl
    | closed => rfl

theorem Script.broken_renumber (p : Phase) (fault : SyntaxFault) :
    Script.broken (p.renumber f) (fault.renumber f) = (Script.broken p fault).renumber f := by
  rw [Script.broken, Phase.settled_renumber]
  rfl

/-! ## Sessions -/

/-- The groups, with other line numbers from the place `n` on. -/
def Groups.renumberFrom (n : Nat) (gs : Groups) : Groups :=
  gs.mapIdx fun i g => { g with line := if i < n then g.line else f g.line }

/-- The session, with other line numbers for its groups from the place `n` on. -/
def Session.renumberFrom (n : Nat) (s : Session) : Session :=
  { s with groups := s.groups.renumberFrom f n }

namespace Groups

variable (n : Nat) (gs : Groups)

/-- What does not look at the lines finds the same in every group. -/
theorem map_renumberFrom {β : Type} {view : Group → β}
    (noLine : ∀ (g : Group) (line : Nat), view { g with line := line } = view g) :
    (gs.renumberFrom f n).map view = gs.map view := by
  refine List.ext_getElem? fun i => ?_
  rw [List.getElem?_map, List.getElem?_map, renumberFrom, List.getElem?_mapIdx]
  cases gs[i]? with
  | none => rfl
  | some g => exact congrArg some (noLine g _)

theorem findIdx?_renumberFrom {p : Group → Bool}
    (noLine : ∀ (g : Group) (line : Nat), p { g with line := line } = p g) :
    (gs.renumberFrom f n).findIdx? p = gs.findIdx? p := by
  have asBools : ∀ gs' : Groups, gs'.findIdx? p = (gs'.map p).findIdx? id := fun gs' => by
    rw [List.findIdx?_map]
    rfl
  rw [asBools, asBools, map_renumberFrom f n gs noLine]

theorem plainContains_renumberFrom (a : Arena) (text : String) :
    (gs.renumberFrom f n).plainContains a text = gs.plainContains a text := by
  have asBools : ∀ gs' : Groups, gs'.plainContains a text =
      (gs'.map fun g => g.isPlain && g.contains a text).any id := fun gs' => by
    rw [List.any_map]
    rfl
  rw [asBools, asBools, map_renumberFrom f n gs fun _ _ => rfl]

theorem firstPlain?_renumberFrom : (gs.renumberFrom f n).firstPlain? = gs.firstPlain? :=
  findIdx?_renumberFrom f n gs fun _ _ => rfl

theorem findSource?_renumberFrom (a : Arena) (source : String) :
    (gs.renumberFrom f n).findSource? a source = gs.findSource? a source :=
  findIdx?_renumberFrom f n gs fun _ _ => rfl

theorem length_renumberFrom : (gs.renumberFrom f n).length = gs.length := List.length_mapIdx

theorem renumberFrom_pushAt (place : Nat) (h : Handle) :
    (gs.renumberFrom f n).pushAt place h = (gs.pushAt place h).renumberFrom f n := by
  refine List.ext_getElem? fun i => ?_
  simp only [pushAt, renumberFrom, List.getElem?_modify, List.getElem?_mapIdx]
  cases gs[i]? with
  | none => rfl
  | some g =>
    refine congrArg some ?_
    dsimp only
    split <;> rfl

/-- From the first place on these are all groups. -/
theorem renumberFrom_zero :
    gs.renumberFrom f 0 = gs.map fun g => { g with line := f g.line } := by
  refine List.ext_getElem? fun i => ?_
  rw [renumberFrom, List.getElem?_mapIdx, List.getElem?_map]
  cases gs[i]? <;> rfl

/-- From behind the last place on there is no group. -/
theorem renumberFrom_length : gs.renumberFrom f gs.length = gs := by
  refine List.ext_getElem? fun i => ?_
  rw [renumberFrom, List.getElem?_mapIdx]
  cases at_ : gs[i]? with
  | none => rfl
  | some g =>
    have inside : i < gs.length := (List.getElem?_eq_some_iff.mp at_).choose
    rw [Option.map_some, if_pos inside]

/-- A group at the end is new. -/
theorem renumberFrom_concat {gs : Groups} (le : n ≤ gs.length) (g : Group) :
    (gs ++ [g]).renumberFrom f n = gs.renumberFrom f n ++ [{ g with line := f g.line }] := by
  rw [renumberFrom, List.mapIdx_concat, if_neg (Nat.not_lt.mpr le)]
  rfl

end Groups

namespace Session

variable {n : Nat} (squash : Bool) {s : Session}

theorem addModule_renumberFrom (le : n ≤ s.groups.length) (line : Nat) (place : Option Nat)
    (text : String) :
    addModule squash (f line) (s.renumberFrom f n) place text =
      ((addModule squash line s place text).1.renumberFrom f n,
        (addModule squash line s place text).2) := by
  have found : (s.groups.renumberFrom f n).plainContains s.arena text =
      s.groups.plainContains s.arena text := Groups.plainContains_renumberFrom ..
  unfold addModule
  simp only [renumberFrom, found, Groups.firstPlain?_renumberFrom, Groups.length_renumberFrom]
  split
  next => rfl
  next =>
    cases place.or (if squash then s.groups.firstPlain? else none) with
    | some i => simp [Groups.renumberFrom_pushAt]
    | none => simp [← Groups.renumberFrom_pushAt, Groups.renumberFrom_concat f n le]

theorem length_le_addModule (line : Nat) (place : Option Nat) (text : String) :
    s.groups.length ≤ (addModule squash line s place text).1.groups.length := by
  unfold addModule
  split
  next => exact Nat.le_refl _
  next =>
    simp only [Groups.pushAt, List.length_modify]
    cases place.or (if squash then s.groups.firstPlain? else none) <;> simp

theorem addModules_renumberFrom (le : n ≤ s.groups.length) (line : Nat) (place : Option Nat)
    (es : List Entry) :
    (s.renumberFrom f n).addModules squash (f line) place es =
        (s.addModules squash line place es).renumberFrom f n ∧
      n ≤ (s.addModules squash line place es).groups.length := by
  induction es generalizing s place with
  | nil => exact ⟨rfl, le⟩
  | cons e es ih =>
    rw [addModules, addModules, addModule_renumberFrom f squash le]
    exact ih (Nat.le_trans le (length_le_addModule squash line place e.text)) _

/-- The names of a source are collected without a look at the line. -/
theorem collect_line (a : Arena) (g : Group) (line : Nat) (es : List Entry) :
    collect a { g with line := line } es =
      ((collect a g es).1, { (collect a g es).2 with line := line }) := by
  induction es generalizing a g with
  | nil => rfl
  | cons e es ih =>
    have found : Group.contains { g with line := line } a e.text = g.contains a e.text := rfl
    rw [collect, collect, found]
    split
    next => exact ih a g
    next => exact ih (a.alloc e.text) (g.push a.nextHandle)

theorem target?_renumberFrom (m : String) :
    (s.renumberFrom f n).target? squash m =
      (s.target? squash m).map fun found =>
        (found.1, { found.2 with
          line := if found.1 < n then found.2.line else f found.2.line }) := by
  cases squash with
  | false => rfl
  | true =>
    simp only [target?, renumberFrom, if_true, Groups.findSource?_renumberFrom]
    cases s.groups.findSource? s.arena m with
    | none => rfl
    | some i =>
      simp only [Option.bind_eq_bind, Option.bind_some, Groups.renumberFrom, List.getElem?_mapIdx]
      cases s.groups[i]? <;> rfl

theorem merge_renumberFrom (place : Nat) (g : Group) (es : List Entry) :
    (s.renumberFrom f n).merge place
        { g with line := if place < n then g.line else f g.line } es =
      (s.merge place g es).renumberFrom f n := by
  have line : (collect s.arena g es).2.line = g.line := by
    have own := collect_line s.arena g g.line es
    exact congrArg (fun filled => filled.2.line) own
  simp only [merge, renumberFrom, collect_line, Groups.renumberFrom, List.mapIdx_set, line]

theorem found_line (m : String) (line : Nat) (es : List Entry) :
    s.found m (f line) es =
      ((s.found m line es).1, { (s.found m line es).2 with line := f line }) :=
  collect_line (s.arena.alloc m) { kind := .source s.arena.nextHandle, line := line } (f line) es

theorem line_found (m : String) (line : Nat) (es : List Entry) :
    (s.found m line es).2.line = line :=
  congrArg (fun filled => filled.2.line)
    (collect_line (s.arena.alloc m) { kind := .source s.arena.nextHandle, line := line } line es)

/-- A statement on another line is performed alike. -/
theorem perform_renumberFrom (le : n ≤ s.groups.length) (st : Statement) :
    (s.renumberFrom f n).perform squash (st.renumber f) = (s.perform squash st).renumberFrom f n ∧
      n ≤ (s.perform squash st).groups.length := by
  obtain ⟨o, line, es⟩ := st
  cases o with
  | plain => exact addModules_renumberFrom f squash le line none es
  | source m =>
    simp only [perform, Statement.renumber, target?_renumberFrom]
    cases s.target? squash m with
    | some found =>
      obtain ⟨place, g⟩ := found
      exact ⟨merge_renumberFrom f place g es, by simpa [merge] using le⟩
    | none =>
      refine ⟨?_, by simp only [List.length_append]; omega⟩
      show Session.mk ((s.renumberFrom f n).found m (f line) es).1 _ = _
      rw [show (s.renumberFrom f n).found m (f line) es = s.found m (f line) es from rfl,
        found_line]
      simp only [renumberFrom, Groups.renumberFrom_concat f n le, line_found]

theorem abandon_renumberFrom (le : n ≤ s.groups.length) (st : Statement) :
    (s.renumberFrom f n).abandon squash (st.renumber f) = (s.abandon squash st).renumberFrom f n := by
  obtain ⟨o, line, es⟩ := st
  cases o with
  | plain => exact (addModules_renumberFrom f squash le line none es).1
  | source m =>
    simp only [abandon, Statement.renumber, target?_renumberFrom]
    cases s.target? squash m with
    | some found => exact merge_renumberFrom f found.1 found.2 es
    | none =>
      show Session.mk (s.found m (f line) es).1 _ = _
      rw [found_line]
      rfl

theorem performAll_renumberFrom (le : n ≤ s.groups.length) (S : List Statement) :
    (s.renumberFrom f n).performAll squash (S.map (Statement.renumber f)) =
        (s.performAll squash S).renumberFrom f n ∧
      n ≤ (s.performAll squash S).groups.length := by
  induction S generalizing s with
  | nil => exact ⟨rfl, le⟩
  | cons st S ih =>
    obtain ⟨first, le'⟩ := perform_renumberFrom f squash le st
    have others := ih le'
    rw [← first] at others
    exact others

/-- A script with other line numbers is followed alike. -/
theorem follow_renumberFrom (le : n ≤ s.groups.length) (script : Script) :
    (s.renumberFrom f n).follow squash (script.renumber f) =
      ((s.follow squash script).1.renumberFrom f n,
        (s.follow squash script).2.map (SyntaxFault.renumber f)) := by
  obtain ⟨performed, le'⟩ := performAll_renumberFrom f squash le script.statements
  obtain ⟨S, ending⟩ := script
  unfold follow
  simp only [Script.renumber, performed]
  cases ending with
  | complete => rfl
  | broken settled fault =>
    cases settled with
    | none => rfl
    | some st =>
      simp only [Ending.renumber, Option.map_some, abandon_renumberFrom f squash le']

end Session

end ImportTidy
