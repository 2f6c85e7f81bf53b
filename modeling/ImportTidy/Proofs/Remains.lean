import ImportTidy.Proofs.Grammar.Breaking
import ImportTidy.Proofs.Histories

/-!
# What a failed run leaves behind

Where a script breaks off, `Session.abandon` does what is left to do.  If some group takes
the names of the statement at hand, this is to perform what is settled of it
(`Session.abandon_of_takes`).  Otherwise the statement would make a group for its source, and
the group is dropped with its handles in the arena (`Session.abandon_of_not_takes`).

Such groups are *unmade*, and no later run finds them.  `Session.Remains` says of a session
that its groups show certain blocks, and that the arena has the texts of those and of the
unmade ones.  For the arena this rests on `Arena.Keeps`: whatever is done, live handles keep
their texts.  `History.of_run_of_fault` puts it together with where the grammar breaks off.
-/

namespace ImportTidy

/-! ## Live handles keep their texts -/

namespace Session

variable {s : Session} {squash : Bool} {bs unmade : List Block} {st : Statement}

theorem keeps_collect (a : Arena) (g : Group) (es : List Entry) :
    a.Keeps (collect a g es).1 := by
  induction es generalizing a g with
  | nil => exact .refl a
  | cons e es ih =>
    rw [collect]
    split
    · exact ih a g
    · exact (Arena.Keeps.alloc a e.text).trans (ih _ _)

theorem keeps_addModule (squash : Bool) (line : Nat) (s : Session) (place : Option Nat)
    (text : String) : s.arena.Keeps (addModule squash line s place text).1.arena := by
  rw [addModule]
  split
  · exact .refl _
  · exact .alloc _ text

theorem keeps_addModules (squash : Bool) (line : Nat) (s : Session) (place : Option Nat)
    (es : List Entry) : s.arena.Keeps (s.addModules squash line place es).arena := by
  induction es generalizing s place with
  | nil => exact .refl _
  | cons e es ih => exact (keeps_addModule squash line s place e.text).trans (ih _ _)

theorem keeps_found (s : Session) (m : String) (line : Nat) (es : List Entry) :
    s.arena.Keeps (s.found m line es).1 :=
  (Arena.Keeps.alloc s.arena m).trans (keeps_collect _ _ es)

theorem keeps_perform (squash : Bool) (s : Session) (st : Statement) :
    s.arena.Keeps (s.perform squash st).arena := by
  rw [perform]
  split
  next => exact keeps_addModules squash st.line s none st.entries
  next m _ =>
    split
    next i g _ => exact keeps_collect s.arena g st.entries
    next => exact keeps_found s m st.line st.entries

theorem keeps_abandon (squash : Bool) (s : Session) (st : Statement) :
    s.arena.Keeps (s.abandon squash st).arena := by
  rw [abandon]
  split
  next => exact keeps_addModules squash st.line s none st.entries
  next m _ =>
    split
    next i g _ => exact keeps_collect s.arena g st.entries
    next => exact keeps_found s m st.line st.entries

/-- Groups that stay as they are show what they showed. -/
theorem Shows.keeps {s' : Session} (h : s.Shows bs) (wf : s.arena.WellFormed)
    (keeps : s.arena.Keeps s'.arena) (same : s'.groups = s.groups) : s'.Shows bs := by
  rw [Session.Shows, same]
  exact h.imp fun _ _ shown => shown.keeps wf keeps

/-! ## Taken and unmade -/

/-- A statement of this origin makes no new group for a source. -/
def takes (squash : Bool) (s : Session) : Origin → Bool
  | .plain => true
  | .source m => squash && s.groups.any fun g => g.source? s.arena == some m

/-- The group that is lost where a session is left with this much of a statement. -/
def unmadeOf (squash : Bool) (s : Session) (st : Statement) : List Block :=
  if s.takes squash st.origin then [] else [⟨st.origin, st.texts.eraseDups, st.line⟩]

theorem target?_eq_none_iff {m : String} :
    s.target? squash m = none ↔ s.takes squash (.source m) = false := by
  cases squash with
  | false => simp [target?, takes]
  | true =>
    simp only [target?, takes, Groups.findSource?, if_true, Bool.true_and]
    cases found : s.groups.findIdx? fun g => g.source? s.arena == some m with
    | none =>
      rw [List.findIdx?_eq_none_iff] at found
      simpa using found
    | some i =>
      obtain ⟨inside, same, -⟩ := List.findIdx?_eq_some_iff_getElem.mp found
      have some : (s.groups.any fun g => g.source? s.arena == Option.some m) = true :=
        List.any_eq_true.mpr ⟨_, List.getElem_mem inside, same⟩
      simp [some, inside]

theorem abandon_of_takes (takes : s.takes squash st.origin = true) :
    s.abandon squash st = s.perform squash st := by
  refine abandon_eq_perform fun m origin missing => ?_
  rw [target?_eq_none_iff, ← origin, takes] at missing
  cases missing

theorem abandon_of_not_takes (missing : s.takes squash st.origin = false) :
    ∃ m, st.origin = .source m ∧
      s.abandon squash st = { s with arena := (s.found m st.line st.entries).1 } := by
  rw [abandon]
  cases origin : st.origin with
  | plain =>
    rw [origin] at missing
    cases missing
  | source m =>
    rw [origin] at missing
    refine ⟨m, rfl, ?_⟩
    simp only [target?_eq_none_iff.mpr missing]

/-- The groups stay as they are where no entry is settled, and where the source has none of
them. -/
theorem groups_abandon (nothing : s.takes squash st.origin = true → st.entries = []) :
    (s.abandon squash st).groups = s.groups := by
  cases taken : s.takes squash st.origin with
  | true =>
    rw [abandon, nothing taken]
    split
    next => rfl
    next m _ =>
      split
      next i g target =>
        obtain ⟨inside, rfl⟩ := List.getElem?_eq_some_iff.mp (getElem?_of_target? target)
        exact List.set_getElem_self inside
      next => rfl
  | false =>
    obtain ⟨m, -, abandoned⟩ := abandon_of_not_takes taken
    rw [abandoned]

/-! ## What remains -/

/-- The groups show these blocks, and the arena has the texts of those and of the unmade
ones. -/
structure Remains (s : Session) (bs unmade : List Block) : Prop where
  shown : s.Shows bs
  owns : ∃ lost, s.Owns lost ∧ lost.map s.arena.get? = (textsOfBlocks unmade).map some

theorem remains_empty : Remains {} [] [] := ⟨.nil, [], .empty, rfl⟩

namespace Remains

theorem wellFormed (h : s.Remains bs unmade) : s.arena.WellFormed :=
  h.owns.elim fun _ owned => owned.1.wellFormed

/-- The arena has these texts and no others. -/
theorem texts_perm (h : s.Remains bs unmade) :
    (s.arena.texts.filterMap id).Perm (textsOfBlocks (bs ++ unmade)) := by
  obtain ⟨lost, owns, named⟩ := h.owns
  obtain ⟨ts, holds⟩ := owns.holds
  have all : (s.groups.handles ++ lost).map s.arena.get? =
      (textsOfBlocks (bs ++ unmade)).map some := by
    rw [List.map_append, named, Groups.Shows.handles h.shown, ← List.map_append]
    simp [textsOfBlocks]
  rw [holds.texts]
  simpa [List.filterMap_map] using owns.texts_perm holds all

/-- A statement makes its group. -/
theorem perform (h : s.Remains bs unmade) (squash : Bool) (st : Statement) :
    (s.perform squash st).Remains (Block.absorb squash bs st) unmade := by
  refine ⟨(h.shown.perform h.wellFormed squash st).2, ?_⟩
  obtain ⟨lost, owns, named⟩ := h.owns
  exact ⟨lost, owns.perform squash st, (keeps_perform squash s st).named owns.wellFormed named⟩

theorem performAll (h : s.Remains bs unmade) (squash : Bool) (S : List Statement) :
    (s.performAll squash S).Remains (S.foldl (Block.absorb squash) bs) unmade := by
  induction S generalizing s bs with
  | nil => exact h
  | cons st S ih => exact ih (h.perform squash st)

/-- What is left of a statement goes to a group, or to one that is unmade. -/
theorem abandon (h : s.Remains bs unmade) (squash : Bool) (st : Statement) :
    (s.abandon squash st).Remains (Block.settle squash bs st)
      (unmade ++ s.unmadeOf squash st) := by
  refine ⟨(h.shown.abandon h.wellFormed squash st).2, ?_⟩
  obtain ⟨lost, owns, named⟩ := h.owns
  cases taken : s.takes squash st.origin with
  | true =>
    rw [abandon_of_takes taken, unmadeOf, if_pos taken, List.append_nil]
    exact ⟨lost, owns.perform squash st, (keeps_perform squash s st).named owns.wellFormed named⟩
  | false =>
    obtain ⟨m, origin, abandoned⟩ := abandon_of_not_takes taken
    rw [abandoned, unmadeOf, taken, origin]
    obtain ⟨-, new, -⟩ := h.shown.found h.wellFormed m st.line st.entries
    refine ⟨lost ++ (s.found m st.line st.entries).2.handles, ?_, ?_⟩
    · refine (owns.found m st.line st.entries).perm ?_
      rw [← List.append_assoc]
      exact List.perm_append_comm
    · rw [List.map_append, new.handles,
        (keeps_found s m st.line st.entries).named owns.wellFormed named, fresh_of_seen_nil,
        ← List.map_append]
      simp [textsOfBlocks, Statement.texts]

end Remains

/-- The group that is lost where a script is broken. -/
def unmadeBy (squash : Bool) (s : Session) (script : Script) : List Block :=
  script.ending.settled?.elim [] ((s.performAll squash script.statements).unmadeOf squash)

/-- The step lemma of runs. -/
theorem Remains.follow (h : s.Remains bs unmade) (squash : Bool) (script : Script) :
    ∃ bs', (s.follow squash script).1.Remains bs' (unmade ++ s.unmadeBy squash script) := by
  have performed := h.performAll squash script.statements
  rw [follow_fst, unmadeBy]
  cases script.ending.settled? with
  | none => exact ⟨_, by simpa using performed⟩
  | some st => exact ⟨_, performed.abandon squash st⟩

end Session

/-! ## Histories -/

namespace History

variable {settings : SortSettings}

/-- The unmade groups behind one more action. -/
def unmadeBy (settings : SortSettings) (h : History) (unmade : List Block) : Action → List Block
  | .run feed => unmade ++ h.session.unmadeBy settings.squash (.ofFeed feed)
  | .runBytes bytes =>
      unmade ++ h.session.unmadeBy settings.squash (.ofFeed (.ofBytes settings.maxLineLength bytes))
  | .release => []

/-- The unmade groups behind actions. -/
def unmadeFrom (settings : SortSettings) (h : History) (unmade : List Block) :
    List Action → List Block
  | [] => unmade
  | a :: actions => unmadeFrom settings (h.act settings a) (unmadeBy settings h unmade a) actions

/-- The groups that the runs since the last release lost to faults. -/
def unmade (settings : SortSettings) (actions : List Action) : List Block :=
  unmadeFrom settings {} [] actions

theorem unmadeFrom_concat (h : History) (bs : List Block) (actions : List Action) (a : Action) :
    unmadeFrom settings h bs (actions ++ [a]) =
      unmadeBy settings (actions.foldl (act settings) h) (unmadeFrom settings h bs actions) a := by
  induction actions generalizing h bs with
  | nil => rfl
  | cons b actions ih => exact ih _ _

theorem remains_act {h : History} {bs unmade : List Block} (remains : h.session.Remains bs unmade)
    (a : Action) :
    ∃ bs', (h.act settings a).session.Remains bs' (unmadeBy settings h unmade a) := by
  cases a with
  | run feed => exact remains.follow settings.squash (.ofFeed feed)
  | runBytes bytes =>
    exact remains.follow settings.squash (.ofFeed (.ofBytes settings.maxLineLength bytes))
  | release => exact ⟨[], Session.remains_empty⟩

theorem remains_foldl {h : History} {bs unmade : List Block}
    (remains : h.session.Remains bs unmade) (actions : List Action) :
    ∃ bs', (actions.foldl (act settings) h).session.Remains bs'
      (unmadeFrom settings h unmade actions) := by
  induction actions generalizing h bs unmade with
  | nil => exact ⟨bs, remains⟩
  | cons a actions ih =>
    obtain ⟨bs', remains'⟩ : ∃ bs', (h.act settings a).session.Remains bs' _ := remains_act remains a
    exact ih remains'

/-- What remains after any actions. -/
theorem remains_of (settings : SortSettings) (actions : List Action) :
    ∃ bs, (of settings actions).session.Remains bs (unmade settings actions) :=
  remains_foldl Session.remains_empty actions

end History

/-! ## Failed runs -/

section

open Grammar

variable {settings : SortSettings} {s : Session} {feed : Feed} {S : List Statement}
  {left : Option Statement} {fault : SyntaxFault}

/-- A run meets a fault where its input breaks off, and nowhere else. -/
theorem Session.run_eq_some_iff :
    (s.run settings feed).2 = some fault ↔ ∃ S left, Breaks true (.ofFeed feed) S left fault := by
  have script := s.follow_fault settings.squash (.ofFeed feed)
  constructor
  · intro broken
    obtain ⟨left, breaks⟩ := breaks_of_reads (reads_iff.mpr ⟨rfl, script.symm.trans broken⟩)
    exact ⟨_, left, breaks⟩
  · rintro ⟨S, left, breaks⟩
    exact ((Session.run_iff_reads settings s feed S _).mpr breaks.reads).2

/-- An input breaks off in one way only. -/
theorem Grammar.Breaks.unique {S' : List Statement} {left' : Option Statement}
    {fault' : SyntaxFault} (h : Breaks true (.ofFeed feed) S left fault)
    (h' : Breaks true (.ofFeed feed) S' left' fault') : S' = S ∧ left' = left ∧ fault' = fault := by
  cases (breaks_iff.mp h).symm.trans (breaks_iff.mp h')
  exact ⟨rfl, rfl, rfl⟩

/-- A failed run performs the complete statements and abandons the one at hand. -/
theorem Session.run_of_breaks (h : Breaks true (.ofFeed feed) S left fault) :
    (s.run settings feed).1 =
      left.elim (s.performAll settings.squash S)
        ((s.performAll settings.squash S).abandon settings.squash) := by
  rw [Session.run, Session.follow_fst, breaks_iff.mp h]
  rfl

theorem Session.run_of_reads (h : Reads true (.ofFeed feed) S none) :
    (s.run settings feed).1 = s.performAll settings.squash S := by
  obtain ⟨rfl, complete⟩ := (Session.run_iff_reads settings s feed S none).mpr h
  exact follow_of_no_fault complete

/-- What a failed run leaves behind, from every session that runs and releases lead to.

The input breaks off in one way: it holds the statements `S`, and `left` is what is settled of
the statement at hand.

* The complete statements are performed, as in a run over an input that has these alone.
* If a group takes the names of the statement at hand, what is settled of it is performed too.
* Where nothing is settled, or the statement would make a group for its source, the groups
  stay as they are and show what they showed.
* In the last case the group that would be new is unmade.  The arena has the texts of the
  groups, and those of the unmade ones since the last release. -/
theorem History.of_run_of_fault (settings : SortSettings) (actions : List Action) (feed : Feed)
    (fault : SyntaxFault)
    (broken : ((of settings actions).session.run settings feed).2 = some fault) :
    ∃ S left,
      (∀ S' left' fault', Breaks true (.ofFeed feed) S' left' fault' ↔
        S' = S ∧ left' = left ∧ fault' = fault) ∧
      let before := (of settings actions).session
      let done := before.performAll settings.squash S
      let after := (before.run settings feed).1
      (∀ feed', Reads true (.ofFeed feed') S none → (before.run settings feed').1 = done) ∧
      (∀ st ∈ left, done.takes settings.squash st.origin = true →
        after = done.perform settings.squash st) ∧
      ((∀ st ∈ left, done.takes settings.squash st.origin = true → st.entries = []) →
        after.groups = done.groups ∧ ∀ bs, done.Shows bs → after.Shows bs) ∧
      unmade settings (actions ++ [.run feed]) =
        unmade settings actions ++ left.elim [] (done.unmadeOf settings.squash) ∧
      ∃ bs, after.Shows bs ∧ (after.arena.texts.filterMap id).Perm
        (textsOfBlocks (bs ++ unmade settings (actions ++ [.run feed]))) := by
  obtain ⟨S, left, breaks⟩ := Session.run_eq_some_iff.mp broken
  obtain ⟨bs₀, remains⟩ := remains_of settings actions
  refine ⟨S, left, ?_, ?_⟩
  · intro S' left' fault'
    constructor
    · exact breaks.unique
    · rintro ⟨rfl, rfl, rfl⟩
      exact breaks
  intro before done after
  have performed := remains.performAll settings.squash S
  have run : after = left.elim done (done.abandon settings.squash) := Session.run_of_breaks breaks
  refine ⟨fun feed' reads => Session.run_of_reads reads, ?_, ?_, ?_, ?_⟩
  · rintro st ⟨⟩ taken
    exact run.trans (Session.abandon_of_takes taken)
  · intro nothing
    rw [run]
    cases left with
    | none => exact ⟨rfl, fun bs shown => shown⟩
    | some st =>
      have same := Session.groups_abandon (nothing st rfl)
      exact ⟨same, fun bs shown =>
        shown.keeps performed.wellFormed (Session.keeps_abandon _ _ _) same⟩
  · rw [unmade, unmadeFrom_concat, unmadeBy, Session.unmadeBy, breaks_iff.mp breaks]
    rfl
  · obtain ⟨bs, remains'⟩ := remains_of settings (actions ++ [.run feed])
    rw [of, List.foldl_concat] at remains'
    exact ⟨bs, remains'.shown, remains'.texts_perm⟩

/-- The group of `m` takes two names more, and that of `n` is unmade. -/
theorem History.of_run_of_fault_of_merge :
    let before : List Action := [.run [.ok "from m import a\n", .ok "from n import b, (\n"]]
    let run := (of {} before).session.run {} [.ok "from m import c, d, (\n"]
    run.2 = some (.unexpected 1 20 .importedName .leftParen) ∧
      run.1.groups.map (Group.texts · run.1.arena) = [["a", "c", "d"]] ∧
      ∃ bs, run.1.Shows bs ∧
        (run.1.arena.texts.filterMap id).Perm (textsOfBlocks (bs ++ [⟨.source "n", ["b"], 2⟩])) := by
  intro before run
  have broken : run.2 = some (.unexpected 1 20 .importedName .leftParen) := by decide +kernel
  have lost : unmade {} (before ++ [.run [.ok "from m import c, d, (\n"]]) =
      [⟨.source "n", ["b"], 2⟩] := by decide +kernel
  obtain ⟨S, left, -, -, -, -, -, bs, shown, texts⟩ := History.of_run_of_fault {} before _ _ broken
  rw [lost] at texts
  exact ⟨broken, by decide +kernel, bs, shown, texts⟩

end

end ImportTidy
