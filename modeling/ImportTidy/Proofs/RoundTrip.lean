import ImportTidy.Proofs.Likeness
import ImportTidy.Proofs.Rendering

/-!
# Reading undoes rendering

A session is rendered, and a fresh one reads the text.  The second one has the groups of
the first in the same order.  Their names are sorted, and each has the line on which its
statement starts in the text (`placed`).

This needs what every session has that read its groups from a source: names and sources
that can be read (`Block.Proper`), and no name twice where a session would drop the second
one (`Distinct`).  It also needs that no line is joined to the next one.

The proof goes through the grammar.  Each block spells one statement
(`Block.Proper.spells`), so the text holds these statements and no others (`reads_blocks`).
No statement has anything in common with those before it, so each makes a block of its own
(`foldl_absorb_distinct`).
-/

namespace ImportTidy

open List (Forall₂)

/-! ## Statements with nothing in common -/

/-- No name stands twice where the second one would be dropped, and no origin where two
blocks would be joined. -/
structure Distinct (squash : Bool) (bs : List Block) : Prop where
  /-- The names of a block differ. -/
  names : ∀ b ∈ bs, b.names.Nodup
  /-- The names of all plain blocks differ. -/
  modules : (plainNames bs).Nodup
  /-- Under squashing the origins differ. -/
  origins : squash = true → (bs.map Block.origin).Nodup

/-- Blocks that are like distinct ones are distinct. -/
theorem Distinct.of_like {squash : Bool} {bs bs' : List Block} (like : Forall₂ Block.Like bs' bs)
    (h : Distinct squash bs) : Distinct squash bs' := by
  refine ⟨fun b hb => ?_, (plainNames_like like).nodup_iff.mpr h.modules, fun squashing => ?_⟩
  · obtain ⟨b', hb', same⟩ := exists_partner like hb
    exact same.names.nodup_iff.mpr (h.names b' hb')
  · rw [map_origin_like like]
    exact h.origins squashing

theorem Distinct.of_append {squash : Bool} {bs bs' : List Block}
    (h : Distinct squash (bs ++ bs')) : Distinct squash bs := by
  refine ⟨fun b hb => h.names b (List.mem_append_left _ hb), ?_, fun squashing => ?_⟩
  · have modules := h.modules
    rw [plainNames_append] at modules
    exact (List.nodup_append.mp modules).1
  · have origins := h.origins squashing
    rw [List.map_append] at origins
    exact (List.nodup_append.mp origins).1

/-- A text that occurs once is fresh. -/
theorem fresh_of_nodup {seen texts : List String} (nodup : texts.Nodup)
    (disjoint : ∀ t ∈ texts, t ∉ seen) : fresh seen texts = texts := by
  induction texts generalizing seen with
  | nil => rfl
  | cons t ts ih =>
    obtain ⟨notMem, nodup⟩ := List.nodup_cons.mp nodup
    obtain ⟨first, others⟩ := List.forall_mem_cons.mp disjoint
    rw [fresh_cons_of_not_mem first, ih nodup]
    intro u hu
    rw [List.mem_cons, not_or]
    refine ⟨?_, others u hu⟩
    rintro rfl
    exact notMem hu

/-- A statement that has nothing in common with the blocks makes one of its own. -/
theorem absorb_of_distinct {squash : Bool} {bs : List Block} {st : Statement}
    (entries : st.texts ≠ []) (h : Distinct squash (bs ++ [st.block])) :
    Block.absorb squash bs st = bs ++ [st.block] := by
  have nodup : st.texts.Nodup := h.names st.block (by simp)
  have missing : Block.taker? squash st.origin bs = none := by
    cases squash with
    | false => rfl
    | true =>
      have origins := h.origins rfl
      rw [List.map_append, List.nodup_append] at origins
      refine List.findIdx?_eq_none_iff.mpr fun b hb => decide_eq_false fun same => ?_
      exact origins.2.2 b.origin (List.mem_map_of_mem hb) st.origin (by simp [Statement.block]) same
  have unseen : fresh (Block.seenBy squash st.origin bs) st.texts = st.texts := by
    refine fresh_of_nodup nodup fun t ht => ?_
    cases origin : st.origin with
    | plain =>
      have modules := h.modules
      rw [plainNames_append, List.nodup_append] at modules
      intro seen
      refine modules.2.2 t seen t ?_ rfl
      exact mem_plainNames.mpr ⟨st.block, by simp, origin, ht⟩
    | source m =>
      rw [origin] at missing
      simp [Block.seenBy, missing]
  rw [Block.absorb, unseen, if_neg fun nothing => entries nothing.2, Block.put, missing]
  rfl

/-- Statements with nothing in common make a block each. -/
theorem foldl_absorb_distinct {squash : Bool} {bs : List Block} {S : List Statement}
    (entries : ∀ st ∈ S, st.texts ≠ [])
    (h : Distinct squash (bs ++ S.map Statement.block)) :
    S.foldl (Block.absorb squash) bs = bs ++ S.map Statement.block := by
  induction S generalizing bs with
  | nil => simp
  | cons st S ih =>
    obtain ⟨first, others⟩ := List.forall_mem_cons.mp entries
    have split : bs ++ (st :: S).map Statement.block =
        bs ++ [st.block] ++ S.map Statement.block := by
      simp
    rw [split] at h ⊢
    rw [List.foldl_cons, absorb_of_distinct first h.of_append]
    exact ih others h

/-! ## The blocks of a rendered text -/

/-- The lines that a block takes. -/
def Block.height (rule : WrapRule) (b : Block) : Nat := (linesOf (b.render rule)).length

/-- The blocks with sorted names, and with the lines on which they start in the rendered
text behind `n` others. -/
def placed (rule : WrapRule) (n : Nat) : List Block → List Block
  | [] => []
  | b :: bs => ⟨b.origin, NaturalOrder.sort b.names, n + 1⟩ :: placed rule (n + b.height rule) bs

theorem linesOf_append_newline (s : String) : linesOf (s ++ "\n") = linesOf s ++ [""] := by
  rw [linesOf, linesOf, List.splitOn, String.toList_append]
  exact (congrArg (List.map String.ofList) (List.splitOnP_append_cons _ [] rfl)).trans
    List.map_append

theorem Block.Proper.linesOf_render {b : Block} (h : b.Proper) (rule : WrapRule) :
    linesOf (b.render rule) = b.lines rule := by
  have same : linesOf (b.render rule) ++ [""] = b.lines rule ++ [""] := by
    rw [← linesOf_append_newline, ← Block.unlines_lines, linesOf_unlines (h.oneLine rule)]
  exact List.append_cancel_right same

theorem renderBlocks_eq_unlines (rule : WrapRule) (bs : List Block) :
    renderBlocks rule bs = unlines (bs.flatMap (Block.lines rule)) := by
  induction bs with
  | nil => rfl
  | cons b bs ih =>
    rw [List.flatMap_cons, unlines_append, ← ih, Block.unlines_lines, renderBlocks, renderBlocks,
      List.map_cons, String.join_cons]

/-- The lines of a rendered text are those of its blocks. -/
theorem linesOf_renderBlocks {rule : WrapRule} {bs : List Block} (proper : ∀ b ∈ bs, b.Proper) :
    linesOf (renderBlocks rule bs) = bs.flatMap (Block.lines rule) ++ [""] := by
  rw [renderBlocks_eq_unlines]
  refine linesOf_unlines fun l hl => ?_
  obtain ⟨b, hb, hl⟩ := List.mem_flatMap.mp hl
  exact (proper b hb).oneLine rule l hl

/-! ## Reading -/

open Grammar

theorem Grammar.Spells.words_ne_nil {o : Origin} {es : List Entry} {ws : List Word} {next : Word}
    (h : Spells o es ws next) : ws ≠ [] := by
  cases h with
  | intro start _ => cases start <;> simp

/-- Tokens that spell a statement up to a line break are read as that statement, which starts
on the line of the first of them. -/
theorem reads_spelled {o : Origin} {es : List Entry} {ws : List Word} {ts : List Token}
    {line : Nat} {S : List Statement} {rest : TokenStream}
    (spelled : Spells o es ws ⟨.lineBreak, "\n"⟩)
    (words : wordsOf ts = ws ++ [⟨.lineBreak, "\n"⟩]) (first : ∀ t ∈ ts.head?, t.line = line)
    (others : Reads true rest S none) : Reads true (.ofTokens ts rest) (⟨o, line, es⟩ :: S) none := by
  obtain ⟨front, last, rfl, frontWords, lastWord⟩ := List.map_eq_append_iff.mp words
  obtain ⟨t, none, rfl, isBreak, nil⟩ := List.map_eq_cons_iff.mp lastWord
  obtain rfl := List.map_eq_nil_iff.mp nil
  cases front with
  | nil => exact absurd frontWords.symm spelled.words_ne_nil
  | cons f front =>
    have atLine : f.line = line := first f rfl
    have kind : t.kind.isBreak = true := congrArg (fun w : Word => w.kind.isBreak) isBreak
    have ends : (TokenStream.ofTokens [t] rest).next = (.ok t, rest) := rfl
    rw [ofTokens_append, ← atLine]
    refine .statement ?_ ends (by rwa [kind])
    rw [isBreak, wordsOf, frontWords]
    exact spelled

/-- A rendered text holds one statement for each block. -/
theorem reads_blocks {rule : WrapRule} {bs : List Block} (proper : ∀ b ∈ bs, b.Proper)
    (slashes : ∀ b ∈ bs, ∀ l ∈ b.lines rule, ¬ EndsInBackslash l) (n : Nat) :
    ∃ S, S.map Statement.block = placed rule n bs ∧
      Reads true
        (TokenStream.after n ((bs.flatMap (Block.lines rule)).map fun l => .ok (l ++ "\n"))) S none := by
  induction bs generalizing n with
  | nil => exact ⟨[], rfl, .finish⟩
  | cons b bs ih =>
    obtain ⟨proper_b, proper⟩ := List.forall_mem_cons.mp proper
    obtain ⟨slashes_b, slashes⟩ := List.forall_mem_cons.mp slashes
    obtain ⟨es, ws, texts, spelled, words, first⟩ := proper_b.spells slashes_b n
    obtain ⟨S, blocks, reads⟩ := ih proper slashes (n + b.height rule)
    have height : b.height rule = (b.lines rule).length :=
      congrArg List.length (proper_b.linesOf_render rule)
    refine ⟨⟨b.origin, n + 1, es⟩ :: S, ?_, ?_⟩
    · rw [List.map_cons, blocks, placed]
      simp [Statement.block, Statement.texts, texts]
    · rw [List.flatMap_cons, List.map_append, after_lines, ← height]
      exact reads_spelled spelled words first reads

/-- Sorting and placing the blocks keeps what they import. -/
theorem placed_like (rule : WrapRule) (n : Nat) (bs : List Block) :
    Forall₂ Block.Like (placed rule n bs) bs := by
  induction bs generalizing n with
  | nil => exact .nil
  | cons b bs ih => exact .cons ⟨rfl, NaturalOrder.sort_perm b.names⟩ (ih _)

/-- A rendered text is fed line by line, if its lines are not too long. -/
theorem feed_renderBlocks {rule : WrapRule} {limit : UInt64} {bs : List Block}
    (proper : ∀ b ∈ bs, b.Proper) (small : limit.toNat < UInt64.size - 2)
    (short : ∀ l ∈ linesOf (renderBlocks rule bs), l.utf8ByteSize ≤ limit.toNat) :
    Feed.ofBytes limit (Utf8.encode (renderBlocks rule bs)) =
      (bs.flatMap (Block.lines rule)).map fun l => .ok (l ++ "\n") := by
  have lines : ∀ l ∈ bs.flatMap (Block.lines rule),
      OneLine l ∧ l.utf8ByteSize ≤ limit.toNat := by
    intro l hl
    refine ⟨?_, short l ?_⟩
    · obtain ⟨b, hb, hl⟩ := List.mem_flatMap.mp hl
      exact (proper b hb).oneLine rule l hl
    · rw [linesOf_renderBlocks proper]
      exact List.mem_append_left _ hl
  rw [renderBlocks_eq_unlines]
  exact Feed.after_unlines small lines 0

/-- A rendered text is read back without a fault, if its lines are not joined and not too
long. -/
theorem run_renderBlocks {rule : WrapRule} {settings : SortSettings} {bs : List Block}
    (proper : ∀ b ∈ bs, b.Proper) (distinct : Distinct settings.squash bs)
    (slashes : ∀ b ∈ bs, ∀ l ∈ b.lines rule, ¬ EndsInBackslash l)
    (small : settings.maxLineLength.toNat < UInt64.size - 2)
    (short : ∀ l ∈ linesOf (renderBlocks rule bs), l.utf8ByteSize ≤ settings.maxLineLength.toNat) :
    ∃ t, Session.runBytes settings {} (Utf8.encode (renderBlocks rule bs)) = (t, none) ∧
      t.Shows (placed rule 0 bs) := by
  have feed := feed_renderBlocks proper small short
  obtain ⟨S, blocks, reads⟩ := reads_blocks proper slashes 0
  obtain ⟨statements, ended⟩ := reads_iff.mp reads
  rw [← feed] at statements ended
  have fault : (Session.runBytes settings {} (Utf8.encode (renderBlocks rule bs))).2 = none :=
    (Session.follow_fault ..).trans ended
  refine ⟨_, Prod.ext rfl fault, ?_⟩
  have shown := (Session.run_shows_gathered fault).2
  have entries : ∀ st ∈ S, st.texts ≠ [] := fun st hst nothing =>
    reads.entries_ne_nil st hst (List.map_eq_nil_iff.mp nothing)
  have gathers : gathered settings.squash S = placed rule 0 bs := by
    have alone : Distinct settings.squash ([] ++ S.map Statement.block) :=
      blocks ▸ distinct.of_like (placed_like rule 0 bs)
    rw [← foldl_absorb _ reads.entries_ne_nil, ← blocks]
    exact foldl_absorb_distinct entries alone
  rw [statements, gathers] at shown
  exact shown

/-! ## Names that end in no backslash -/

theorem EndsInBackslash.of_append {s t : String} (h : EndsInBackslash (s ++ t)) :
    EndsInBackslash t ∨ t = "" ∧ EndsInBackslash s := by
  rw [EndsInBackslash, String.toList_append, List.getLast?_append, Option.or_eq_some_iff] at h
  rcases h with h | ⟨empty, h⟩
  · exact .inl h
  · refine .inr ⟨?_, h⟩
    rw [← String.ofList_toList (s := t), List.getLast?_eq_none_iff.mp empty]

theorem EndsInBackslash.of_flat {names : List String} (h : EndsInBackslash (Layout.flat names)) :
    ∃ n ∈ names, EndsInBackslash n := by
  induction names with
  | nil => cases h
  | cons n names ih =>
    cases names with
    | nil => exact ⟨n, by simp, by simpa [Layout.flat] using h⟩
    | cons m names =>
      rw [Layout.flat, String.intercalate_cons_cons] at h
      rcases h.of_append with h | ⟨-, h⟩
      · obtain ⟨n', mem, ends⟩ := ih h
        exact ⟨n', List.mem_cons_of_mem _ mem, ends⟩
      · rcases h.of_append with h | ⟨h, -⟩
        · cases h
        · exact absurd h (by decide)

theorem not_endsInBackslash_closed (front : String) (indent : Nat) (ls : List (List String)) :
    ∀ l ∈ Layout.closed front indent ls, ¬ EndsInBackslash l := by
  have closes : ∀ {s t : String}, t ≠ "" → ¬ EndsInBackslash t → ¬ EndsInBackslash (s ++ t) :=
    fun some no ends => ends.of_append.elim no fun empty => some empty.1
  have paren : ¬ EndsInBackslash ")" := nofun
  have comma : ¬ EndsInBackslash "," := nofun
  induction ls generalizing front with
  | nil => simpa [Layout.closed] using closes (by decide) paren
  | cons names ls ih =>
    cases ls with
    | nil =>
      rw [Layout.closed, List.forall_mem_singleton, ← String.append_assoc]
      exact closes (by decide) paren
    | cons more rest =>
      rw [Layout.closed, List.forall_mem_cons, ← String.append_assoc]
      exact ⟨closes (by decide) comma, ih _⟩

/-- A line of a block ends in a backslash only if a name does. -/
theorem Block.not_endsInBackslash_lines {b : Block} (h : ∀ n ∈ b.names, ¬ EndsInBackslash n)
    (rule : WrapRule) : ∀ l ∈ b.lines rule, ¬ EndsInBackslash l := by
  rw [Block.lines, Layout.lines]
  split
  · exact not_endsInBackslash_closed _ _ _
  · rw [List.forall_mem_singleton]
    intro ends
    rcases ends.of_append with ends | ⟨-, ends⟩
    · obtain ⟨n, mem, ends⟩ := ends.of_flat
      exact h n (NaturalOrder.mem_sort.mp mem) ends
    · cases origin : b.origin with
      | plain =>
        rw [origin] at ends
        cases ends
      | source m =>
        rw [origin] at ends
        rcases EndsInBackslash.of_append ends with ends | ⟨ends, -⟩
        · cases ends
        · exact absurd ends (by decide)

/-- Reading undoes rendering.  A fresh session that reads the text of another, under settings of
its own, has the same groups in the same order.  Their names are sorted, and each has the line
on which its statement starts in the text. -/
theorem Session.runBytes_render {s : Session} {bs : List Block} (shown : s.Shows bs)
    (rule : WrapRule) (settings : SortSettings) (proper : ∀ b ∈ bs, b.Proper)
    (noSlash : ∀ b ∈ bs, ∀ n ∈ b.names, ¬ EndsInBackslash n)
    (distinct : Distinct settings.squash bs) (small : settings.maxLineLength.toNat < UInt64.size - 2)
    (short : ∀ l ∈ linesOf (s.render rule), l.utf8ByteSize ≤ settings.maxLineLength.toNat) :
    ∃ t, Session.runBytes settings {} (Utf8.encode (s.render rule)) = (t, none) ∧
      t.Shows (placed rule 0 bs) := by
  rw [shown.render] at short ⊢
  exact run_renderBlocks proper distinct
    (fun b hb => Block.not_endsInBackslash_lines (noSlash b hb) rule) small short

/-- A wrapped group and a plain one. -/
theorem Session.runBytes_render_two_groups :
    let s : Session :=
      ⟨((((({} : Arena).alloc "m").alloc "b\\x").alloc "b").alloc "a").alloc "c as d",
        [⟨.source 0, [2, 3, 1], 1⟩, ⟨.plain, [4], 7⟩]⟩
    ∃ t, Session.runBytes {} {} (Utf8.encode (s.render { first := 1 })) = (t, none) ∧
      t.Shows (placed { first := 1 } 0
        [⟨.source "m", ["b", "a", "b\\x"], 1⟩, ⟨.plain, ["c as d"], 7⟩]) := by
  intro s
  have shown : s.Shows [⟨.source "m", ["b", "a", "b\\x"], 1⟩, ⟨.plain, ["c as d"], 7⟩] :=
    .cons ⟨by decide +kernel, by decide +kernel, rfl⟩
      (.cons ⟨by decide +kernel, by decide +kernel, rfl⟩ .nil)
  have identifier : ∀ w ∈ ["m", "a", "b", "b\\x", "c", "d"], IsIdentifier w := by
    intro w hw
    have checked : ["m", "a", "b", "b\\x", "c", "d"].all (fun w => !w.toList.isEmpty &&
        w.toList.all (fun c => !isDelimiter c) && wordKind w = .identifier) = true := by
      decide +kernel
    have own := List.all_eq_true.mp checked w hw
    simp only [Bool.and_eq_true, Bool.not_eq_true', List.isEmpty_eq_false_iff, List.all_eq_true,
      decide_eq_true_eq] at own
    exact ⟨⟨own.1.1, own.1.2⟩, own.2⟩
  have name : ∀ w ∈ ["m", "a", "b", "b\\x", "c", "d"], IsName w := fun w hw =>
    ⟨{ name := w }, ⟨identifier w hw, by simp⟩, rfl⟩
  have renamed : IsName "c as d" :=
    ⟨{ name := "c", asName := "d" }, ⟨identifier "c" (by simp), by simpa using identifier "d"⟩, rfl⟩
  have sorted : NaturalOrder.sort ["b", "a", "b\\x"] = ["a", "b", "b\\x"] :=
    NaturalOrder.sort_eq (by decide +kernel) (by decide +kernel)
  have text : s.render { first := 1 } =
      "from m import (a,\n               b, b\\x)\nimport c as d\n" := by
    rw [shown.render, renderBlocks, List.map_cons, List.map_singleton, Block.render, sorted,
      Block.render, NaturalOrder.sort, List.mergeSort_singleton]
    decide +kernel
  refine Session.runBytes_render shown _ _ ?_ ?_ ?_ (by decide) (by rw [text]; decide +kernel)
  · rw [List.forall_mem_cons, List.forall_mem_singleton]
    refine ⟨⟨by simp, ?_, ?_⟩, by simp, by simp, by simpa using renamed⟩
    · rintro m ⟨⟩
      exact identifier "m" (by simp)
    · exact fun n hn => name n (by revert n; decide)
  · simp [EndsInBackslash]
  · exact ⟨by decide +kernel, by decide +kernel, fun _ => by decide +kernel⟩

end ImportTidy
