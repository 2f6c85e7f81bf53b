import ImportTidy.Proofs.Backslashes

/-!
# When the output is stable

The text that a run makes of a source is read again under the same settings.  It stays as
it is, unless a line of it ends in a backslash (`reorganize_stable_iff`).

Such a line comes from a name that ends in a backslash.  The name was read in front of a
comma, a comment or a parenthesis, where a backslash is a character like any other.  At the
end of a line it joins the lines, so it is lost when the text is read again, and what is
made of the rest has fewer backslashes (`slashes_render_lt`).

Where no line ends in one, the text is read back (`run_renderBlocks`), and sorting twice is
sorting once.

Under the two greatest limits a read takes one byte or none.  No keyword fits in a byte, so
nothing is read, and every text that is made is empty.
-/

namespace ImportTidy

/-! ## The two greatest limits -/

/-- Every character has a byte. -/
theorem Utf8.length_le_length_encode (s : String) : s.toList.length ≤ (encode s).length := by
  obtain ⟨cs, rfl⟩ : ∃ cs, s = String.ofList cs := ⟨s.toList, String.ofList_toList.symm⟩
  rw [String.toList_ofList]
  induction cs with
  | nil => exact Nat.zero_le _
  | cons c cs ih =>
    have own := Char.utf8Size_pos c
    rw [encode_ofList_cons, List.length_append, String.length_utf8EncodeChar, List.length_cons]
    omega

theorem readSpan_le_one {limit : UInt64} (great : ¬ limit.toNat < UInt64.size - 2) :
    readSpan limit ≤ 1 := by
  have bound : limit.toNat < UInt64.size := limit.toNat_lt
  rw [readSpan, UInt64.toNat_add]
  show (limit.toNat + 2) % UInt64.size ≤ 1
  unfold UInt64.size at *
  omega

/-- A line that is read is no longer than a read. -/
theorem Feed.length_le_of_mem_after {limit : UInt64} {bytes : List UInt8} {text : String} {n : Nat}
    (h : .ok text ∈ Feed.after limit n bytes) : text.toList.length ≤ readSpan limit := by
  induction n, bytes using Feed.after.induct limit with
  | case1 n bytes rest cut =>
    rw [Feed.after_of_no_cut cut] at h
    cases h
  | case2 n bytes b line rest cut ih =>
    rw [Feed.after_of_cut cut] at h
    rcases List.mem_cons.mp h with own | h
    · have taken := length_cutLine_le (readSpan limit) bytes
      rw [cut] at taken
      rw [judgeLine] at own
      split at own
      next => cases own
      next =>
        split at own
        next decoded =>
          cases own
          have size := Utf8.length_le_length_encode text
          rw [Utf8.encode_of_decode decoded] at size
          exact Nat.le_trans size taken
        next => cases own
    · exact ih h

/-- A keyword has more than one character. -/
theorem wordKind_of_short {w : String} (short : w.toList.length ≤ 1) :
    wordKind w ≠ .importWord ∧ wordKind w ≠ .fromWord := by
  have notFrom : w ≠ "from" := by
    rintro rfl
    exact absurd short (by decide)
  have notImport : w ≠ "import" := by
    rintro rfl
    exact absurd short (by decide)
  rw [wordKind, if_neg notFrom, if_neg notImport]
  split <;> exact ⟨nofun, nofun⟩

/-- A line of one character has no keyword. -/
theorem no_keyword_ofLine {n : Nat} {l : String} (short : l.toList.length ≤ 1) {t : Token}
    (ht : t ∈ Token.ofLine n l) : t.kind ≠ .importWord ∧ t.kind ≠ .fromWord := by
  by_cases isWord : t.kind.isWord = true
  · have found := words_ofLine ht isWord
    rw [found.kind]
    exact wordKind_of_short (Nat.le_trans found.length_le short)
  · constructor
    · intro kind
      exact isWord (by rw [kind]; rfl)
    · intro kind
      exact isWord (by rw [kind]; rfl)

/-- Without a keyword there is no statement. -/
theorem Grammar.Reads.eq_nil {fresh : Bool} {tokens : TokenStream} {S : List Statement}
    {fault : Option SyntaxFault} (h : Reads fresh tokens S fault)
    (none : tokens.Holds fun t => t.kind ≠ .importWord ∧ t.kind ≠ .fromWord) : S = [] := by
  induction h with
  | skip _ _ ih => exact ih none.2
  | @statement first next ts behind rest o es S fault spelled _ _ _ =>
    obtain ⟨own, -⟩ := TokenStream.Holds.ofTokens_iff.mp none
    obtain ⟨noImport, noFrom⟩ := own first (by simp)
    generalize words : wordsOf (first :: ts) = ws at spelled
    cases spelled with
    | intro start _ =>
      cases start with
      | plain isImport =>
        have same : first.kind = _ := congrArg Word.kind (List.cons.inj words).1
        exact absurd (same.trans isImport) noImport
      | source isFrom =>
        have same : first.kind = _ := congrArg Word.kind (List.cons.inj words).1
        exact absurd (same.trans isFrom) noFrom
  | _ => rfl

/-- Where a read takes one byte or none, no keyword is read. -/
theorem no_keyword_of_great_limit {limit : UInt64} (great : ¬ limit.toNat < UInt64.size - 2)
    (bytes : List UInt8) :
    (TokenStream.ofFeed (Feed.ofBytes limit bytes)).Holds
      fun t => t.kind ≠ .importWord ∧ t.kind ≠ .fromWord := by
  have short : ∀ text, .ok text ∈ Feed.ofBytes limit bytes → text.toList.length ≤ 1 :=
    fun _ mem => Nat.le_trans (Feed.length_le_of_mem_after mem) (readSpan_le_one great)
  exact TokenStream.Holds.ofFeed (fun text mem _ _ ht => no_keyword_ofLine (short text mem) ht) 0

/-- Where a read takes one byte or none, nothing is made. -/
theorem render_of_great_limit {settings : SortSettings}
    (great : ¬ settings.maxLineLength.toNat < UInt64.size - 2) {bytes : List UInt8}
    (read : (Session.runBytes settings {} bytes).2 = none) :
    (Session.runBytes settings {} bytes).1.render settings.wrap = "" := by
  have reads := Session.reads_of_no_fault read
  have shown := (Session.run_shows_gathered read).2
  have nothing : ∀ squash, gathered squash [] = [] := by
    intro squash
    cases squash <;> rfl
  rw [reads.eq_nil (no_keyword_of_great_limit great bytes), nothing] at shown
  exact shown.render settings.wrap

/-! ## The output -/

theorem reorganize_empty (settings : SortSettings) : reorganize settings "" = .ok "" := by
  have run : Session.runBytes settings {} (Utf8.encode "") = ({}, none) :=
    congrArg (Session.run settings {}) (Feed.after_nil settings.maxLineLength 0)
  exact reorganize_eq_ok_iff.mpr ⟨by rw [run], by rw [run]; rfl⟩

/-- Proper blocks are read back from their text, unless a line ends in a backslash. -/
theorem reorganize_renderBlocks {settings : SortSettings} {bs : List Block}
    (proper : ∀ b ∈ bs, b.Proper) (distinct : Distinct settings.squash bs)
    (small : settings.maxLineLength.toNat < UInt64.size - 2)
    (short : ∀ l ∈ linesOf (renderBlocks settings.wrap bs),
      l.utf8ByteSize ≤ settings.maxLineLength.toNat) :
    reorganize settings (renderBlocks settings.wrap bs) = .ok (renderBlocks settings.wrap bs) ↔
      ∀ l ∈ linesOf (renderBlocks settings.wrap bs), ¬ EndsInBackslash l := by
  have lines : linesOf (renderBlocks settings.wrap bs) =
      bs.flatMap (Block.lines settings.wrap) ++ [""] := linesOf_renderBlocks proper
  constructor
  · intro again l hl ends
    obtain ⟨read, rendered⟩ := reorganize_eq_ok_iff.mp again
    have inBlock : l ∈ bs.flatMap (Block.lines settings.wrap) := by
      rw [lines] at hl
      rcases List.mem_append.mp hl with hl | hl
      · exact hl
      · rw [List.mem_singleton.mp hl] at ends
        cases ends
    have fewer := slashes_render_lt (feed_renderBlocks proper small short) read
      ⟨l, inBlock, ends⟩ settings.wrap
    have total : slashes (renderBlocks settings.wrap bs) =
        slashesIn (bs.flatMap (Block.lines settings.wrap)) := by
      rw [renderBlocks_eq_unlines, slashes_unlines]
    exact Nat.ne_of_lt fewer ((congrArg slashes rendered).trans total)
  · intro noSlash
    have slashes : ∀ b ∈ bs, ∀ l ∈ b.lines settings.wrap, ¬ EndsInBackslash l := by
      intro b hb l hl
      refine noSlash l ?_
      rw [lines]
      exact List.mem_append_left _ (List.mem_flatMap.mpr ⟨b, hb, hl⟩)
    obtain ⟨t, run, shown⟩ := run_renderBlocks proper distinct slashes small short
    rw [reorganize_eq_ok_iff, run]
    exact ⟨rfl, (shown.render _).trans (renderBlocks_like (placed_like ..) _)⟩

/-- A name in front of a comment may end in a backslash.  In the text that is made it joins its
line to the next statement, which is lost when that text is read. -/
theorem reorganize_joined :
    reorganize {} "import b\\#\nfrom x import y\n" = .ok "import b\\\nfrom x import y\n" ∧
      reorganize {} "import b\\\nfrom x import y\n" = .ok "import b\n" := by
  have made : Session.runBytes {} {} (Utf8.encode "import b\\#\nfrom x import y\n") =
      (⟨((({} : Arena).alloc "b\\").alloc "x").alloc "y",
        [⟨.plain, [0], 1⟩, ⟨.source 1, [2], 2⟩]⟩, none) := by
    decide +kernel
  have again : Session.runBytes {} {} (Utf8.encode "import b\\\nfrom x import y\n") =
      (⟨({} : Arena).alloc "b", [⟨.plain, [0], 1⟩]⟩, none) := by
    decide +kernel
  have shown : Session.Shows ⟨((({} : Arena).alloc "b\\").alloc "x").alloc "y",
      [⟨.plain, [0], 1⟩, ⟨.source 1, [2], 2⟩]⟩ [⟨.plain, ["b\\"], 1⟩, ⟨.source "x", ["y"], 2⟩] :=
    .cons ⟨rfl, by decide +kernel, rfl⟩ (.cons ⟨by decide +kernel, by decide +kernel, rfl⟩ .nil)
  have shown' : Session.Shows ⟨({} : Arena).alloc "b", [⟨.plain, [0], 1⟩]⟩ [⟨.plain, ["b"], 1⟩] :=
    .cons ⟨rfl, by decide +kernel, rfl⟩ .nil
  rw [reorganize_eq_ok_iff, reorganize_eq_ok_iff, made, again, shown.render, shown'.render]
  simp only [renderBlocks, List.map_cons, List.map_nil, Block.render, NaturalOrder.sort,
    List.mergeSort_singleton]
  decide +kernel

/-- The exact condition.  What a run makes of a source stays as it is when it is read again,
unless a line of it ends in a backslash. -/
theorem reorganize_stable_iff {settings : SortSettings} {source out : String}
    (made : reorganize settings source = .ok out)
    (short : ∀ l ∈ linesOf out, l.utf8ByteSize ≤ settings.maxLineLength.toNat) :
    reorganize settings out = .ok out ↔ ∀ l ∈ linesOf out, ¬ EndsInBackslash l := by
  obtain ⟨read, rendered⟩ := reorganize_eq_ok_iff.mp made
  by_cases small : settings.maxLineLength.toNat < UInt64.size - 2
  · obtain ⟨bs, shown, proper, distinct⟩ := Session.run_readable read
    obtain rfl : renderBlocks settings.wrap bs = out := (shown.render _).symm.trans rendered
    exact reorganize_renderBlocks proper distinct small short
  · obtain rfl : out = "" := rendered.symm.trans (render_of_great_limit small read)
    have noLine : ∀ l ∈ linesOf "", ¬ EndsInBackslash l := by
      intro l hl
      rw [List.mem_singleton.mp (show l ∈ [""] from hl)]
      nofun
    exact iff_of_true (reorganize_empty settings) noLine

/-- The condition fails where a name ends in a backslash. -/
theorem reorganize_stable_iff_of_comment :
    reorganize {} "import b\\\nfrom x import y\n" = .ok "import b\\\nfrom x import y\n" ↔
      ∀ l ∈ linesOf "import b\\\nfrom x import y\n", ¬ EndsInBackslash l :=
  reorganize_stable_iff reorganize_joined.1 (by decide +kernel)

/-- So the output is not always stable. -/
theorem reorganize_not_stable :
    ¬ ∀ (settings : SortSettings) (source out : String), reorganize settings source = .ok out →
      (∀ l ∈ linesOf out, l.utf8ByteSize ≤ settings.maxLineLength.toNat) →
      reorganize settings out = .ok out := by
  intro stable
  have same := stable {} _ _ reorganize_joined.1 (by decide +kernel)
  rw [reorganize_joined.2] at same
  exact absurd same (by decide)

end ImportTidy
