import ImportTidy.Proofs.Gathering

/-!
# Merging afterwards

Under squashing the statements of one origin are joined while they are read.  The blocks that
a run without it makes can be joined afterwards as well.  `merged` has one block for each
origin, in order of the first block that has it and with the line of that block.  Its names
are those of all blocks of that origin, each once.

The two ways agree.  The step lemma is `absorb_merged`: joined blocks absorb a statement under
squashing as the blocks absorb it apart and are joined then.  A statement with a source that
is read apart does not look at the blocks before it, so some of its texts are sorted out only
when the blocks are joined (`fresh_fresh`).
-/

namespace ImportTidy

/-- The blocks of an origin, joined. -/
def mergedAt (bs : List Block) (o : Origin) : Block :=
  ⟨o, ((bs.filter (·.origin = o)).flatMap Block.names).eraseDups,
    ((bs.find? (·.origin = o)).map Block.line).getD 0⟩

/-- One block for each origin. -/
def merged (bs : List Block) : List Block := (bs.map Block.origin).eraseDups.map (mergedAt bs)

/-! ## Joining is squashing -/

/-- The statements of each origin are squashed to the blocks that they make, joined. -/
theorem merged_map_block (S : List Statement) : merged (S.map Statement.block) = squashed S := by
  have origins : (S.map Statement.block).map Block.origin = S.map Statement.origin := by
    rw [List.map_map]
    rfl
  have blocks : mergedAt (S.map Statement.block) = blockOf S := by
    funext o
    simp only [mergedAt, blockOf, textsOf, List.filter_map, List.flatMap_map, List.find?_map,
      Option.map_map]
    rfl
  rw [merged, origins, blocks]
  rfl

/-- The statement that makes the block on its own. -/
def Block.statement (b : Block) : Statement :=
  ⟨b.origin, b.line, b.names.map fun n => { name := n }⟩

theorem Block.texts_statement (b : Block) : b.statement.texts = b.names := by
  simp [Block.statement, Statement.texts, Entry.text, Function.comp_def]

theorem map_block_statement (bs : List Block) :
    (bs.map Block.statement).map Statement.block = bs := by
  have same : Statement.block ∘ Block.statement = id := funext fun b => by
    rw [Function.comp_apply, Statement.block, Block.texts_statement]
    rfl
  rw [List.map_map, same, List.map_id]

theorem merged_eq_squashed (bs : List Block) : merged bs = squashed (bs.map Block.statement) := by
  rw [← merged_map_block, map_block_statement]

theorem mem_seenBy_merged {bs : List Block} {o : Origin} {t : String} :
    t ∈ Block.seenBy true o (merged bs) ↔ ∃ b ∈ bs, b.origin = o ∧ t ∈ b.names := by
  rw [merged_eq_squashed, mem_seenBy_squashed, mem_textsOf]
  simp [Block.texts_statement]
  simp [Block.statement]

/-- One more block is absorbed as a statement. -/
theorem merged_concat (bs : List Block) {b : Block} (names : b.names ≠ []) :
    merged (bs ++ [b]) = Block.absorb true (merged bs) b.statement := by
  have entries : b.statement.entries ≠ [] := by
    simpa [Block.statement] using names
  rw [merged_eq_squashed, List.map_append, List.map_singleton, ← squashed_concat _ entries,
    ← merged_eq_squashed]

/-! ## One more statement -/

/-- What was seen by fewer may be sorted out first. -/
theorem fresh_fresh {seen seen' : List String} (sub : ∀ t ∈ seen', t ∈ seen) (texts : List String) :
    fresh seen (fresh seen' texts) = fresh seen texts := by
  induction texts generalizing seen seen' with
  | nil => rfl
  | cons t ts ih =>
    by_cases known' : t ∈ seen'
    · rw [fresh_cons_of_mem known', fresh_cons_of_mem (sub t known'), ih sub]
    · rw [fresh_cons_of_not_mem known']
      by_cases known : t ∈ seen
      · rw [fresh_cons_of_mem known, fresh_cons_of_mem known]
        exact ih (List.forall_mem_cons.mpr ⟨known, sub⟩)
      · rw [fresh_cons_of_not_mem known, fresh_cons_of_not_mem known]
        refine congrArg (t :: ·) (ih fun u hu => ?_)
        rcases List.mem_cons.mp hu with rfl | hu
        · simp
        · exact List.mem_cons_of_mem _ (sub u hu)

/-- A statement that is read apart sorts out only texts that joined blocks have. -/
theorem seenBy_subset_merged {bs : List Block} {o : Origin} {t : String}
    (h : t ∈ Block.seenBy false o bs) : t ∈ Block.seenBy true o (merged bs) := by
  cases o with
  | plain => exact mem_seenBy_merged.mpr (mem_plainNames.mp h)
  | source m => cases h

/-- The step lemma.  Joined blocks absorb a statement as the blocks absorb it apart. -/
theorem absorb_merged (bs : List Block) {st : Statement} (entries : st.entries ≠ []) :
    Block.absorb true (merged bs) st = merged (Block.absorb false bs st) := by
  let own : Block := ⟨st.origin, fresh (Block.seenBy false st.origin bs) st.texts, st.line⟩
  have same : fresh (Block.seenBy true st.origin (merged bs)) own.names =
      fresh (Block.seenBy true st.origin (merged bs)) st.texts :=
    fresh_fresh (fun _ => seenBy_subset_merged) _
  by_cases nothing : st.origin = .plain ∧ own.names = []
  · have nothing' : fresh (Block.seenBy true st.origin (merged bs)) st.texts = [] := by
      rw [← same, nothing.2, fresh_nil]
    rw [Block.absorb, if_pos ⟨nothing.1, nothing'⟩, Block.absorb, if_pos nothing]
  · have names : own.names ≠ [] := by
      intro empty
      refine nothing ⟨?_, empty⟩
      cases origin : st.origin with
      | plain => rfl
      | source m =>
        have distinct : own.names = st.texts.eraseDups := by
          rw [← fresh_of_seen_nil]
          simp only [own, origin]
          rfl
        exact absurd (distinct ▸ empty) (eraseDups_ne_nil (Statement.texts_ne_nil entries))
    have apart : Block.absorb false bs st = bs ++ [own] := by
      rw [Block.absorb, if_neg nothing]
      rfl
    have joined : Block.absorb true (merged bs) own.statement =
        Block.absorb true (merged bs) st := by
      rw [Block.absorb, Block.absorb, Block.texts_statement]
      rw [show own.statement.origin = st.origin from rfl, same]
      rfl
    rw [apart, merged_concat bs names, joined]

/-- The run lemma.  Squashing while reading is joining afterwards. -/
theorem foldl_absorb_merged (bs : List Block) {S : List Statement}
    (entries : ∀ st ∈ S, st.entries ≠ []) :
    S.foldl (Block.absorb true) (merged bs) = merged (S.foldl (Block.absorb false) bs) := by
  induction S generalizing bs with
  | nil => rfl
  | cons st S ih =>
    obtain ⟨first, others⟩ := List.forall_mem_cons.mp entries
    rw [List.foldl_cons, List.foldl_cons, absorb_merged bs first, ih _ others]

/-! ## Runs -/

/-- The fault of a run is that of its script, whatever the settings and the session are. -/
theorem Session.run_fault (settings : SortSettings) (s : Session) (feed : Feed) :
    (s.run settings feed).2 = (Script.ofFeed feed).ending.fault? :=
  follow_fault settings.squash s _

/-- Squashing while a source is read gives what merging afterwards gives.  Two fresh sessions
whose settings differ in squashing alone meet the same fault, or none.  Where they meet none, the
blocks of the one that squashes are those of the other, merged. -/
theorem Session.run_squash_eq_merged (settings : SortSettings) (feed : Feed) :
    (Session.run { settings with squash := true } {} feed).2 =
        (Session.run { settings with squash := false } {} feed).2 ∧
      ((Session.run { settings with squash := false } {} feed).2 = none →
        ∃ bs, (Session.run { settings with squash := false } {} feed).1.Shows bs ∧
          (Session.run { settings with squash := true } {} feed).1.Shows (merged bs)) := by
  have same : (Session.run { settings with squash := true } {} feed).2 =
      (Session.run { settings with squash := false } {} feed).2 := by
    rw [run_fault, run_fault]
  refine ⟨same, fun ends => ⟨_, (run_shows_gathered ends).2, ?_⟩⟩
  have entries := (reads_of_no_fault ends).entries_ne_nil
  have joined : gathered true (Script.ofFeed feed).statements =
      merged (gathered false (Script.ofFeed feed).statements) := by
    rw [← foldl_absorb true entries, ← foldl_absorb false entries,
      ← foldl_absorb_merged [] entries]
    rfl
  rw [← joined]
  exact (run_shows_gathered (same.trans ends)).2

/-- Two plain statements and two with one source, in turn. -/
theorem Session.run_squash_eq_merged_four_statements :
    ∃ bs,
      (Session.run { squash := false } {}
        [.ok "import b, a\n", .ok "from m import y\n", .ok "import a, c\n",
          .ok "from m import (x, y)\n"]).1.Shows bs ∧
      (Session.run {} {}
        [.ok "import b, a\n", .ok "from m import y\n", .ok "import a, c\n",
          .ok "from m import (x, y)\n"]).1.Shows (merged bs) :=
  (Session.run_squash_eq_merged {}
    [.ok "import b, a\n", .ok "from m import y\n", .ok "import a, c\n",
      .ok "from m import (x, y)\n"]).2 (by decide +kernel)

end ImportTidy
