import ImportTidy.Proofs.Handles
import ImportTidy.Proofs.Scripts

/-!
# Histories of a session

One session can read any number of sources.  It is never rolled back: where a source is
broken, what was read of it stays, and the next source adds to it.  Only a release takes
everything away.

`History` is a session with what there was since it was released, and `History.Kept` is
what holds of it after any actions.  Each name and source is the text of a handle of its own
and can be read, no name stands twice where the second one would be dropped, and the groups
of each run are in the order of their lines.  While no run met a fault, the arena has
nothing else.

The step lemma is that of a script (`Session.Shows.follow`, `Session.Owns.follow`).  It
comes from the statements that the script begins, since each of them keeps the blocks and
the handles in order, also the one that is left where the script is broken.
-/

namespace ImportTidy

/-! ## One script -/

namespace Session

variable {s : Session} {squash : Bool} {bs : List Block} {lost : List Handle}

/-- A script is performed, and what it leaves of a statement is settled. -/
theorem follow_fst (s : Session) (squash : Bool) (script : Script) :
    (s.follow squash script).1 =
      script.ending.settled?.elim (s.performAll squash script.statements)
        ((s.performAll squash script.statements).abandon squash) := by
  unfold follow
  cases script.ending with
  | complete => rfl
  | broken settled fault => cases settled <;> rfl

/-- A script does to the blocks what the statements do that it begins. -/
theorem Shows.follow (wf : s.arena.WellFormed) (h : s.Shows bs) {script : Script}
    (entries : ∀ st ∈ script.statements, st.entries ≠ []) :
    ∃ bs', (s.follow squash script).1.Shows bs' ∧ AbsorbsAll squash script.begun bs bs' := by
  obtain ⟨wf', shown⟩ := h.performAll wf squash script.statements
  have performed : AbsorbsAll squash script.statements bs _ := absorbsAll_foldl entries
  rw [follow_fst, Script.begun]
  cases script.ending.settled? with
  | none => exact ⟨_, shown, performed.append .nil⟩
  | some st =>
    have shown' := (shown.abandon wf' squash st).2
    exact ⟨_, shown', performed.append (.cons absorbs_settle .nil)⟩

theorem Owns.performAll (h : s.Owns lost) (squash : Bool) (S : List Statement) :
    (s.performAll squash S).Owns lost := by
  induction S generalizing s with
  | nil => exact h
  | cons st S ih => exact ih (h.perform squash st)

/-- A script loses handles only where it is broken. -/
theorem Owns.follow (h : s.Owns lost) (squash : Bool) (script : Script) :
    ∃ lost', (s.follow squash script).1.Owns lost' ∧
      ((s.follow squash script).2 = none → lost' = lost) := by
  have performed := h.performAll squash script.statements
  rw [follow_fst, follow_fault]
  cases script.ending with
  | complete => exact ⟨lost, performed, fun _ => rfl⟩
  | broken settled fault =>
    cases settled with
    | none => exact ⟨lost, performed, nofun⟩
    | some st =>
      obtain ⟨lost', owns⟩ := performed.abandon squash st
      exact ⟨lost', owns, nofun⟩

end Session

/-! ## Histories -/

/-- What can be done with a session. -/
inductive Action where
  /-- A run over a feed. -/
  | run (feed : Feed)
  /-- A run over the bytes of an input. -/
  | runBytes (bytes : List UInt8)
  /-- The release of its groups and names. -/
  | release

/-- A session, with what there was since it was made or released. -/
structure History where
  session : Session := {}
  /-- The lines of the groups that each run made, in order of the runs. -/
  made : List (List Nat) := []
  /-- Some run met a fault. -/
  broken : Bool := false

namespace History

/-- The history with what a run gives. -/
def ran (h : History) (after : Session × Option SyntaxFault) : History where
  session := after.1
  made := h.made ++ [(after.1.groups.drop h.session.groups.length).map Group.line]
  broken := h.broken || after.2.isSome

/-- The history with one more action. -/
def act (settings : SortSettings) (h : History) : Action → History
  | .run feed => h.ran (h.session.run settings feed)
  | .runBytes bytes => h.ran (h.session.runBytes settings bytes)
  | .release => { session := h.session.release }

/-- The history of actions on a new session. -/
def of (settings : SortSettings) (actions : List Action) : History :=
  actions.foldl (act settings) {}

/-- What every history keeps: its session shows these blocks, and the arena has lost these
handles to faults. -/
structure Kept (squash : Bool) (h : History) (bs : List Block) (lost : List Handle) : Prop where
  shown : h.session.Shows bs
  owns : h.session.Owns lost
  whole : h.broken = false → lost = []
  proper : ∀ b ∈ bs, b.Proper
  distinct : Distinct squash bs
  made : h.made.flatten = bs.map Block.line
  rising : ∀ lines ∈ h.made, lines.Pairwise (· < ·)

variable {settings : SortSettings} {h : History} {bs : List Block} {lost : List Handle}

theorem kept_empty (squash : Bool) : Kept squash {} [] [] where
  shown := .nil
  owns := .empty
  whole _ := rfl
  proper := nofun
  distinct := distinct_nil squash
  made := rfl
  rising := nofun

/-- A run keeps the invariant, whatever it reads and wherever it breaks. -/
theorem Kept.run (kept : Kept settings.squash h bs lost) (feed : Feed) :
    ∃ bs' lost', Kept settings.squash (h.ran (h.session.run settings feed)) bs' lost' := by
  have entries : ∀ st ∈ (Script.ofFeed feed).statements, st.entries ≠ [] := fun st hst =>
    (proper_ofFeed feed st hst).ne_nil
  obtain ⟨bs', (shown : (h.session.run settings feed).1.Shows bs'), absorbs⟩ :=
    kept.shown.follow kept.owns.wellFormed entries
  obtain ⟨lost', owns, whole⟩ := kept.owns.follow settings.squash (.ofFeed feed)
  obtain ⟨added, inOrder, lines⟩ := absorbs.lines
  have new : ((h.session.run settings feed).1.groups.drop h.session.groups.length).map Group.line =
      added := by
    rw [List.map_drop, Groups.Shows.lines_eq shown, lines]
    exact List.drop_left' (by rw [List.length_map, List.Forall₂.length_eq kept.shown])
  refine ⟨bs', lost', shown, owns, fun unbroken => ?_,
    absorbs.proper (legible_begun feed) kept.proper, absorbs.distinct kept.distinct, ?_, ?_⟩
  · obtain ⟨before, noFault⟩ := Bool.or_eq_false_iff.mp unbroken
    have complete := Option.isNone_iff_eq_none.mp (Option.isSome_eq_false_iff.mp noFault)
    exact (whole complete).trans (kept.whole before)
  · simp [ran, new, kept.made, lines]
  · simp only [ran, new]
    rw [List.forall_mem_append, List.forall_mem_singleton]
    exact ⟨kept.rising, (orderly_ofFeed feed).rising.sublist inOrder⟩

/-- The step lemma of histories. -/
theorem Kept.act (kept : Kept settings.squash h bs lost) (a : Action) :
    ∃ bs' lost', Kept settings.squash (h.act settings a) bs' lost' := by
  cases a with
  | run feed => exact kept.run feed
  | runBytes bytes => exact kept.run (.ofBytes settings.maxLineLength bytes)
  | release => exact ⟨[], [], kept_empty _⟩

theorem Kept.foldl (kept : Kept settings.squash h bs lost) (actions : List Action) :
    ∃ bs' lost', Kept settings.squash (actions.foldl (History.act settings) h) bs' lost' := by
  induction actions generalizing h bs lost with
  | nil => exact ⟨bs, lost, kept⟩
  | cons a actions ih =>
    obtain ⟨bs', lost', kept'⟩ := kept.act a
    exact ih kept'

/-- What holds of a session after every sequence of runs and releases, whether the runs
meet faults or not.

* All handles of its groups are live and have the texts of the blocks, and none stands
  twice.
* The blocks have names.  Names and sources can be read.  The names of a block differ, and
  so do the names of all plain blocks, and under squashing the origins.
* The groups are those that the runs since the last release made, and the lines of the
  groups of one run rise.
* If none of these runs met a fault, the arena has as many names as the groups have handles,
  and takes the bytes of their texts. -/
theorem of_shows_distinct (settings : SortSettings) (actions : List Action) :
    ∃ bs, (of settings actions).session.Shows bs ∧
      (of settings actions).session.groups.handles.Nodup ∧
      (∀ b ∈ bs, b.Proper) ∧ Distinct settings.squash bs ∧
      (of settings actions).made.flatten = (of settings actions).session.groups.map Group.line ∧
      (∀ lines ∈ (of settings actions).made, lines.Pairwise (· < ·)) ∧
      ((of settings actions).broken = false →
        (of settings actions).session.arena.live =
            (of settings actions).session.groups.handles.length ∧
          (of settings actions).session.arena.bytesUsed =
            ((textsOfBlocks bs).map String.utf8ByteSize).sum) := by
  obtain ⟨bs, lost, kept⟩ := (kept_empty settings.squash).foldl actions
  refine ⟨bs, kept.shown, (List.nodup_append.mp kept.owns.nodup).1, kept.proper, kept.distinct,
    kept.made.trans (Groups.Shows.lines_eq kept.shown).symm, kept.rising, fun unbroken => ?_⟩
  have owns := kept.owns
  rw [Session.Owns, kept.whole unbroken, List.append_nil] at owns
  exact ⟨owns.live_eq, owns.bytesUsed_eq (Groups.Shows.handles kept.shown)⟩

/-- A list that breaks off leaves its source and its names in the arena. -/
example : (of {} [.run [.ok "from m import a, (\n"]]).session.groups = [] ∧
    (of {} [.run [.ok "from m import a, (\n"]]).session.arena.live = 2 := by
  decide +kernel

end History

end ImportTidy
