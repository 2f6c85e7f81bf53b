import ImportTidy.Proofs.Merging
import ImportTidy.Proofs.Readable

/-!
# Reading the output under other settings

A source is tidied under some settings, and the output is tidied again under others.  This
gives what the second settings give for the source itself.  So it does not matter how the
first ones wrap, nor where they cut lines.

Squashing commutes with all of it.  If the second settings squash, the blocks of the first
run are joined (`merged`) when their text is read, whether that run squashed or not, and
they are like the blocks that squashing makes of the source.  If neither squashes, the text
has one statement for each block, and nothing is joined.

The limits of the two settings differ as well.  Under both the whole source is read, and
then it is fed in the same lines (`Feed.after_eq_of_ok`).
-/

namespace ImportTidy

open List (Forall₂)

/-! ## Streams without a failed read -/

/-- No read fails. -/
def TokenStream.Unfailing : TokenStream → Prop
  | .finish _ => True
  | .token _ rest => rest.Unfailing
  | .failed _ _ _ => False

theorem TokenStream.unfailing_ofTokens {ts : List Token} {rest : TokenStream} :
    (TokenStream.ofTokens ts rest).Unfailing ↔ rest.Unfailing := by
  induction ts with
  | nil => rfl
  | cons t ts ih => exact ih

theorem TokenStream.unfailing_of_next {behind rest : TokenStream} {t : Token}
    (next : behind.next = (.ok t, rest)) (h : rest.Unfailing) : behind.Unfailing := by
  cases behind with
  | finish line => trivial
  | token u rest' =>
    cases next
    exact h
  | failed n e rest' => cases next

/-- A reader that meets no fault meets no failed read. -/
theorem Grammar.Reads.unfailing {fresh : Bool} {tokens : TokenStream} {S : List Statement}
    (h : Reads fresh tokens S none) : tokens.Unfailing := by
  generalize none_eq : (none : Option SyntaxFault) = fault at h
  induction h with
  | finish => trivial
  | skip _ _ ih => exact ih none_eq
  | statement _ ends _ ih =>
    exact TokenStream.unfailing_ofTokens.mpr (TokenStream.unfailing_of_next ends (ih none_eq))
  | unread => cases none_eq
  | cut => cases none_eq
  | refused => cases none_eq

theorem TokenStream.ok_of_unfailing {feed : Feed} {n : Nat}
    (h : (TokenStream.after n feed).Unfailing) : ∀ r ∈ feed, ∃ text, r = .ok text := by
  induction feed generalizing n with
  | nil => nofun
  | cons read feed ih =>
    cases read with
    | error e => cases h
    | ok text =>
      rw [List.forall_mem_cons]
      exact ⟨⟨text, rfl⟩, ih (unfailing_ofTokens.mp h)⟩

/-- A source that is read to its end under two limits has the same statements under both. -/
theorem Grammar.Reads.unique {limit limit' : UInt64} (small : limit.toNat < UInt64.size - 2)
    (small' : limit'.toNat < UInt64.size - 2) {source : String} {S S' : List Statement}
    (h : Reads true (.ofFeed (.ofText limit source)) S none)
    (h' : Reads true (.ofFeed (.ofText limit' source)) S' none) : S = S' := by
  have feed : Feed.ofText limit source = Feed.ofText limit' source :=
    Feed.after_eq_of_ok small small' (TokenStream.ok_of_unfailing h.unfailing)
      (TokenStream.ok_of_unfailing h'.unfailing)
  rw [feed] at h
  exact (reads_iff.mp h).1.symm.trans (reads_iff.mp h').1

/-! ## Joined blocks -/

theorem mem_names_like {bs bs' : List Block} (h : Forall₂ Block.Like bs bs') {o : Origin}
    {t : String} (found : ∃ b ∈ bs, b.origin = o ∧ t ∈ b.names) :
    ∃ b ∈ bs', b.origin = o ∧ t ∈ b.names := by
  obtain ⟨b, hb, origin, ht⟩ := found
  obtain ⟨b', hb', like⟩ := exists_partner h hb
  exact ⟨b', hb', like.origin ▸ origin, like.names.mem_iff.mp ht⟩

/-- Like blocks are joined to like ones. -/
theorem merged_like {bs bs' : List Block} (h : Forall₂ Block.Like bs bs') :
    Forall₂ Block.Like (merged bs) (merged bs') := by
  have back : Forall₂ Block.Like bs' bs := (h.imp fun _ _ like => like.symm).flip
  rw [merged, merged, map_origin_like h, List.forall₂_map_left_iff, List.forall₂_map_right_iff,
    List.forall₂_same]
  refine fun o _ => ⟨rfl, eraseDups_perm fun t => ?_⟩
  simp only [List.mem_flatMap, List.mem_filter, decide_eq_true_eq, and_assoc]
  exact ⟨mem_names_like h, mem_names_like back⟩

/-- Blocks with different origins are not joined. -/
theorem merged_of_distinct {bs : List Block} (distinct : Distinct true bs)
    (names : ∀ b ∈ bs, b.names ≠ []) : merged bs = bs := by
  have texts : ∀ st ∈ bs.map Block.statement, st.texts ≠ [] := by
    simpa [Block.texts_statement] using names
  have entries : ∀ st ∈ bs.map Block.statement, st.entries ≠ [] := fun st hst nothing =>
    texts st hst (List.map_eq_nil_iff.mpr nothing)
  have alone : Distinct true ([] ++ (bs.map Block.statement).map Statement.block) := by
    rwa [List.nil_append, map_block_statement]
  have folded := foldl_absorb_distinct texts alone
  rw [foldl_absorb true entries, List.nil_append, map_block_statement] at folded
  rw [merged_eq_squashed]
  exact folded

/-- Joining what was gathered is squashing, whether there was squashing or not. -/
theorem merged_gathered {S : List Statement} (proper : ∀ st ∈ S, st.Proper) (squash : Bool) :
    merged (gathered squash S) = gathered true S := by
  have entries : ∀ st ∈ S, st.entries ≠ [] := fun st hst => (proper st hst).ne_nil
  cases squash with
  | true =>
    exact merged_of_distinct (gathered_distinct entries true) fun b hb =>
      (gathered_proper proper true b hb).ne_nil
  | false =>
    rw [← foldl_absorb false entries, ← foldl_absorb true entries, ← foldl_absorb_merged [] entries]
    rfl

/-- Statements that make the blocks of others, placed and sorted, gather what those gather. -/
theorem gathered_reread_like {S S' : List Statement} {squash squash' : Bool}
    (joins : squash = true → squash' = true) (proper : ∀ st ∈ S, st.Proper)
    (entries : ∀ st ∈ S', st.entries ≠ []) {rule : WrapRule}
    (blocks : S'.map Statement.block = placed rule 0 (gathered squash S)) :
    Forall₂ Block.Like (gathered squash' S') (gathered squash' S) := by
  have like := placed_like rule 0 (gathered squash S)
  cases squash' with
  | true =>
    have joined : gathered true S' = merged (placed rule 0 (gathered squash S)) := by
      rw [← blocks, merged_map_block]
      rfl
    rw [joined, ← merged_gathered proper squash]
    exact merged_like like
  | false =>
    obtain rfl : squash = false := Bool.eq_false_iff.mpr fun squashing => nomatch joins squashing
    have alone : Distinct false ([] ++ S'.map Statement.block) :=
      blocks ▸ (gathered_distinct (fun st hst => (proper st hst).ne_nil) false).of_like like
    have texts : ∀ st ∈ S', st.texts ≠ [] := fun st hst =>
      Statement.texts_ne_nil (entries st hst)
    have apart := foldl_absorb_distinct texts alone
    rw [foldl_absorb false entries, List.nil_append, blocks] at apart
    rwa [apart]

/-! ## Runs -/

/-- Tidying the output under other settings is tidying the source under them.  The second
settings squash or neither do, and the lines of the output are not too long for them.  No
name of the first run ends in a backslash, which could join lines of the output. -/
theorem reorganize_reread {settings settings' : SortSettings} {source out out' : String}
    (small : settings.maxLineLength.toNat < UInt64.size - 2)
    (small' : settings'.maxLineLength.toNat < UInt64.size - 2)
    (joins : settings.squash = true → settings'.squash = true)
    (made : reorganize settings source = .ok out)
    (noSlash : ∀ g ∈ (Session.runBytes settings {} (Utf8.encode source)).1.groups,
      ∀ n ∈ g.texts (Session.runBytes settings {} (Utf8.encode source)).1.arena,
        ¬ EndsInBackslash n)
    (short : ∀ l ∈ linesOf out, l.utf8ByteSize ≤ settings'.maxLineLength.toNat)
    (made' : reorganize settings' source = .ok out') : reorganize settings' out = .ok out' := by
  obtain ⟨S, reads, rfl⟩ := reorganize_eq_ok_iff_reads.mp made
  obtain ⟨S', reads', rfl⟩ := reorganize_eq_ok_iff_reads.mp made'
  obtain rfl := reads.unique small small' reads'
  have proper := reads.proper (legible_ofFeed _)
  have properBlocks := gathered_proper proper settings.squash
  have noSlash' : ∀ b ∈ gathered settings.squash S, ∀ n ∈ b.names, ¬ EndsInBackslash n := by
    intro b hb n hn
    have shown := (Session.shows_of_reads settings reads).2
    obtain ⟨g, hg, shows⟩ := exists_partner shown.flip hb
    exact noSlash g hg n (shows.texts_eq ▸ hn)
  have slashes : ∀ b ∈ gathered settings.squash S, ∀ l ∈ b.lines settings.wrap,
      ¬ EndsInBackslash l := fun b hb =>
    Block.not_endsInBackslash_lines (noSlash' b hb) settings.wrap
  obtain ⟨T, blocks, again⟩ := reads_blocks properBlocks slashes 0
  have feed := feed_renderBlocks properBlocks small' short
  refine reorganize_eq_ok_iff_reads.mpr ⟨T, ?_, renderBlocks_like ?_ settings'.wrap⟩
  · rw [Feed.ofText, feed]
    exact again
  · exact gathered_reread_like joins proper again.entries_ne_nil blocks

/-- A wrapped output that was not squashed is squashed and put on one line each. -/
theorem reorganize_reread_wrapped :
    reorganize {} "import (a,\n        b)\nfrom m import y\nfrom m import x\n" =
      .ok "import a, b\nfrom m import x, y\n" := by
  let S : List Statement :=
    [⟨.plain, 1, [{ name := "b" }, { name := "a" }]⟩, ⟨.source "m", 2, [{ name := "y" }]⟩,
      ⟨.source "m", 3, [{ name := "x" }]⟩]
  have reads : Grammar.Reads true
      (.ofFeed (.ofText 512 "import b, a\nfrom m import y\nfrom m import x\n")) S none :=
    Grammar.reads_iff.mpr (by decide +kernel)
  have modules : NaturalOrder.sort ["b", "a"] = ["a", "b"] :=
    NaturalOrder.sort_eq (by decide) (by decide +kernel)
  have names : NaturalOrder.sort ["y", "x"] = ["x", "y"] :=
    NaturalOrder.sort_eq (by decide) (by decide +kernel)
  have single : ∀ n, NaturalOrder.sort [n] = [n] := fun _ => List.mergeSort_singleton _
  have apart : gathered false S =
      [⟨.plain, ["b", "a"], 1⟩, ⟨.source "m", ["y"], 2⟩, ⟨.source "m", ["x"], 3⟩] := by
    decide +kernel
  have joined : gathered true S = [⟨.plain, ["b", "a"], 1⟩, ⟨.source "m", ["y", "x"], 2⟩] := by
    decide +kernel
  have made : reorganize { squash := false, wrap := { first := 1 } }
      "import b, a\nfrom m import y\nfrom m import x\n" =
        .ok "import (a,\n        b)\nfrom m import y\nfrom m import x\n" := by
    refine reorganize_eq_ok_iff_reads.mpr ⟨S, reads, ?_⟩
    simp only [apart, renderBlocks, List.map_cons, List.map_nil, Block.render, modules, single]
    decide +kernel
  have made' : reorganize {} "import b, a\nfrom m import y\nfrom m import x\n" =
      .ok "import a, b\nfrom m import x, y\n" := by
    refine reorganize_eq_ok_iff_reads.mpr ⟨S, reads, ?_⟩
    simp only [joined, renderBlocks, List.map_cons, List.map_nil, Block.render, modules, names]
    decide +kernel
  refine reorganize_reread (by decide) (by decide) (fun _ => rfl) made ?_ (by decide +kernel) made'
  simp only [EndsInBackslash]
  decide +kernel

end ImportTidy
