import ImportTidy.Proofs.RoundTrip
import ImportTidy.Proofs.Wrapping

/-!
# The text of a statement

A statement is one line, or its names are in parentheses in blocks, a block on each line.  The
text of the blocks is longer than the one line (`length_unwrapped_lt`), so the text tells which
of the two it is.

The blocks are those of `wrapLines`, and all that is said of them here comes from
`packs_wrapLines`.  Without a column a block that is not the last one has as many names as its
line has room for, which gives the number of blocks (`Limits.Packs.length_eq`).  With a column
it can have fewer, and then the next name would go beyond the column.

The lines of the text are the blocks with what stands before and behind them
(`mem_closed`).  Each is as wide as `Limits.Fits` counts it, so it ends within the column or
holds one name (`ends_within_column`).
-/

namespace ImportTidy.Layout

variable {rule : WrapRule} {lead : String} {names : List String} {blocks : List (List String)}

/-! ## The two texts -/

/-- The text of names in blocks. -/
def wrapped (lead : String) (blocks : List (List String)) : String :=
  lead ++ "(" ++ (",\n" ++ blanks (lead.length + 1)).intercalate (blocks.map flat) ++ ")"

/-- The text of names on one line. -/
def unwrapped (lead : String) (names : List String) : String := lead ++ flat names

/-- The statement stands on one line. -/
def IsFlat (rule : WrapRule) (lead : String) (names : List String) : Prop :=
  rule.disabled = true ∨ names.length ≤ rule.first ∧
    (rule.column = 0 ∨ (unwrapped lead names).length ≤ rule.column)

theorem wraps_iff : wraps rule names.length (unwrapped lead names).length = true ↔
    ¬ IsFlat rule lead names := by
  simp only [wraps, IsFlat, Bool.and_eq_true, Bool.or_eq_true, Bool.not_eq_true',
    decide_eq_true_eq, not_or, not_and_or, Bool.not_eq_true, Nat.not_le, gt_iff_lt,
    Nat.pos_iff_ne_zero, ne_eq]

theorem render_of_isFlat (isFlat : IsFlat rule lead names) :
    render rule lead names = unwrapped lead names := by
  have stays : wraps rule names.length (unwrapped lead names).length = false :=
    Bool.eq_false_iff.mpr fun wraps => wraps_iff.mp wraps isFlat
  rw [unwrapped] at stays
  rw [render, stays]
  rfl

theorem render_of_not_isFlat (goes : ¬ IsFlat rule lead names) :
    render rule lead names = wrapped lead (wrapLines rule (lead.length + 1) names) := by
  have wraps := wraps_iff.mpr goes
  rw [unwrapped] at wraps
  rw [render, wraps]
  rfl

/-- The gaps between blocks take no fewer characters than those between names. -/
theorem width_flatten_le (gap : String) (wide : 2 ≤ gap.length) (noEmpty : [] ∉ blocks) :
    width blocks.flatten ≤ (gap.intercalate (blocks.map flat)).length := by
  induction blocks with
  | nil => simp [width]
  | cons block blocks ih =>
    obtain ⟨first, others⟩ := not_or.mp (mt List.mem_cons.mpr noEmpty)
    cases blocks with
    | nil => simp [length_flat]
    | cons next blocks =>
      have some : (next :: blocks).flatten ≠ [] := by
        rw [List.flatten_cons]
        exact List.append_ne_nil_of_left_ne_nil
          (fun empty => others (empty ▸ List.mem_cons_self)) _
      have rest := ih others
      rw [List.flatten_cons, width_append (Ne.symm first) some, List.map_cons, List.map_cons,
        String.intercalate_cons_cons, ← List.map_cons, String.length_append, String.length_append,
        length_flat]
      omega

theorem length_blanks (n : Nat) : (blanks n).length = n := by
  rw [blanks, String.length_ofList, List.length_replicate]

/-- The text of names in blocks is longer than that of the names on one line. -/
theorem length_unwrapped_lt (noEmpty : [] ∉ blocks) :
    (unwrapped lead blocks.flatten).length < (wrapped lead blocks).length := by
  have wide : 2 ≤ (",\n" ++ blanks (lead.length + 1)).length := by
    rw [String.length_append]
    exact Nat.le_add_right 2 _
  have gaps := width_flatten_le _ wide noEmpty
  have opening : "(".length = 1 := rfl
  have closing : ")".length = 1 := rfl
  rw [unwrapped, wrapped, String.length_append, length_flat, String.length_append,
    String.length_append, String.length_append]
  omega

/-- The text tells whether the statement stands on one line. -/
theorem render_eq_unwrapped_iff :
    render rule lead names = unwrapped lead names ↔ IsFlat rule lead names := by
  constructor
  · intro same
    by_contra goes
    have longer : (unwrapped lead (wrapLines rule (lead.length + 1) names).flatten).length < _ :=
      length_unwrapped_lt (nil_not_mem_wrapFrom _ _ _ _ _ _)
    rw [flatten_wrapLines, ← render_of_not_isFlat goes, same] at longer
    exact Nat.lt_irrefl _ longer
  · exact render_of_isFlat

example : render { first := 2, each := 1 } "import " ["a", "b", "c"] =
    "import (a, b,\n        c)" := by
  decide +kernel

/-! ## The number of blocks -/

/-- Without a column every line but the last is as long as it may be. -/
theorem Limits.Packs.length_line {L : Limits} {place : Nat} {line next : List String}
    (noColumn : L.column = 0) (h : L.Packs place (line :: next :: blocks)) :
    line.length = L.room place := by
  have fits := h.fits 0 line rfl
  obtain ⟨name, names, rfl⟩ := List.exists_cons_of_ne_nil (h.fits 1 next rfl).ne_nil
  have full := h.full 0 line name names rfl rfl
  rw [Limits.fits_concat_iff, noColumn] at full
  have most := fits.room
  refine Nat.le_antisymm most (Nat.le_of_not_lt fun room => full ⟨room, ?_⟩)
  intro set
  cases set

/-- Lines behind the first are as many as the names need. -/
theorem Limits.Packs.length_others {L : Limits} {place : Nat} (noColumn : L.column = 0)
    (some : 0 < L.each) (h : L.Packs (place + 1) blocks) :
    blocks.length = (blocks.flatten.length + (L.each - 1)) / L.each := by
  induction blocks generalizing place with
  | nil =>
    have none : 0 + (L.each - 1) < L.each := by omega
    exact (Nat.div_eq_of_lt none).symm
  | cons line blocks ih =>
    cases blocks with
    | nil =>
      have fits := h.fits 0 line rfl
      have least := List.length_pos_iff.mpr fits.ne_nil
      have most : line.length ≤ L.each := fits.room
      rw [List.flatten_singleton, List.length_singleton]
      exact (Nat.div_eq_of_lt_le (by omega) (by omega)).symm
    | cons next more =>
      have all : line.length = L.each := h.length_line noColumn
      have count : (line :: next :: more).flatten.length =
          L.each + (next :: more).flatten.length := by
        rw [List.flatten_cons, List.length_append, all]
      rw [List.length_cons, ih h.tail, count, Nat.add_assoc, Nat.add_div_left _ some]

/-- Without a column the lines are as many as the names need. -/
theorem Limits.Packs.length_eq {L : Limits} (noColumn : L.column = 0) (some : 0 < L.each)
    (h : L.Packs 0 blocks) (names : blocks ≠ []) :
    blocks.length = (blocks.flatten.length - L.first + (L.each - 1)) / L.each + 1 := by
  obtain ⟨line, others, rfl⟩ := List.exists_cons_of_ne_nil names
  rw [List.length_cons, h.tail.length_others noColumn some, List.flatten_cons, List.length_append]
  cases others with
  | nil =>
    have most : line.length ≤ L.first := (h.fits 0 line rfl).room
    have none : line.length + 0 - L.first = 0 := Nat.sub_eq_zero_of_le most
    rw [List.flatten_nil, List.length_nil, none]
  | cons next more =>
    have all : line.length = L.first := h.length_line noColumn
    rw [all, Nat.add_sub_cancel_left]

/-! ## The lines of the text -/

/-- A line of the text is a block, with what stands before it and the character that closes
it. -/
theorem mem_closed {front l : String} {indent : Nat} (some : blocks ≠ [])
    (mem : l ∈ closed front indent blocks) :
    ∃ block ∈ blocks, ∃ before ∈ [front, blanks indent], ∃ close ∈ [",", ")"],
      l = before ++ (flat block ++ close) := by
  induction blocks generalizing front with
  | nil => exact absurd rfl some
  | cons block blocks ih =>
    cases blocks with
    | nil =>
      refine ⟨block, List.mem_singleton_self block, front, List.mem_cons_self, ")", by simp, ?_⟩
      exact List.mem_singleton.mp mem
    | cons next more =>
      rw [closed, List.mem_cons] at mem
      rcases mem with rfl | behind
      · exact ⟨block, List.mem_cons_self, front, List.mem_cons_self, ",", List.mem_cons_self, rfl⟩
      · obtain ⟨b, hb, before, same, close, closes, rfl⟩ := ih (List.cons_ne_nil next more) behind
        refine ⟨b, List.mem_cons_of_mem _ hb, blanks indent, by simp, close, closes, ?_⟩
        simp only [List.mem_cons, List.not_mem_nil, or_false, or_self] at same
        rw [same]

/-- The lines of the text of a statement. -/
theorem linesOf_render (rule : WrapRule) (oneLine : OneLine lead)
    (oneLines : ∀ n ∈ names, OneLine n) :
    linesOf (render rule lead names) = lines rule lead names := by
  have cut : linesOf (unlines (lines rule lead names)) = lines rule lead names ++ [""] :=
    linesOf_unlines (OneLine.lines oneLine oneLines)
  rw [unlines_lines, linesOf_append_newline] at cut
  exact List.append_cancel_right cut

/-- The line has one name, behind the lead or below it, and the character that closes it. -/
def HoldsOne (lead : String) (names : List String) (l : String) : Prop :=
  ∃ before ∈ [lead ++ "(", blanks (lead.length + 1)], ∃ name ∈ names, ∃ close ∈ [",", ")"],
    l = before ++ (name ++ close)

/-- A line of the text is as wide as its names, and the characters around them. -/
theorem length_line {block : List String} {before close : String}
    (starts : before ∈ [lead ++ "(", blanks (lead.length + 1)]) (closes : close ∈ [",", ")"]) :
    (before ++ (flat block ++ close)).length = lead.length + 1 + width block + 1 := by
  have front : before.length = lead.length + 1 := by
    simp only [List.mem_cons, List.not_mem_nil, or_false] at starts
    rcases starts with rfl | rfl
    · rw [String.length_append]
      rfl
    · exact length_blanks _
  have last : close.length = 1 := by
    simp only [List.mem_cons, List.not_mem_nil, or_false] at closes
    rcases closes with rfl | rfl <;> rfl
  rw [String.length_append, String.length_append, length_flat, front, last]
  omega

theorem wrapLines_ne_nil (ne_nil : names ≠ []) (rule : WrapRule) (indent : Nat) :
    wrapLines rule indent names ≠ [] := by
  intro none
  have all := flatten_wrapLines rule indent names
  rw [none] at all
  exact ne_nil all.symm

/-- With a column every line of the text ends within it, or holds one name. -/
theorem ends_within_column (oneLine : OneLine lead) (oneLines : ∀ n ∈ names, OneLine n)
    (ne_nil : names ≠ []) (enabled : rule.disabled = false) (column : 0 < rule.column) {l : String}
    (mem : l ∈ linesOf (render rule lead names)) :
    l.length ≤ rule.column ∨ HoldsOne lead names l := by
  rw [linesOf_render rule oneLine oneLines, Layout.lines] at mem
  split at mem
  next wraps =>
    obtain ⟨block, inside, before, starts, close, closes, rfl⟩ :=
      mem_closed (wrapLines_ne_nil ne_nil rule _) mem
    obtain ⟨i, at_⟩ := List.mem_iff_getElem?.mp inside
    have fits := (packs_wrapLines rule _ names).splits.fits i block at_
    by_cases two : 2 ≤ block.length
    · left
      rw [length_line starts closes]
      exact fits.column column two
    · right
      have one : block.length = 1 := by
        have := List.length_pos_iff.mpr fits.ne_nil
        omega
      obtain ⟨name, rfl⟩ := List.length_eq_one_iff.mp one
      have own : name ∈ names := by
        rw [← flatten_wrapLines rule (lead.length + 1) names]
        exact List.mem_flatten_of_mem inside (List.mem_singleton_self name)
      refine ⟨before, starts, name, own, close, closes, ?_⟩
      rw [flat, String.intercalate_singleton]
  next stays =>
    left
    have isFlat : IsFlat rule lead names := Classical.not_not.mp (mt wraps_iff.mpr stays)
    rw [List.mem_singleton] at mem
    rw [mem]
    rcases isFlat with disabled | ⟨-, noColumn | within⟩
    · rw [enabled] at disabled
      cases disabled
    · exact absurd noColumn (Nat.ne_of_gt column)
    · exact within

/-- The text of a statement.

* It is one line exactly if wrapping is disabled, or if the names are no more than `rule.first`
  and the line ends within the column.
* Otherwise the names are in parentheses, in blocks that stand below each other and hold them
  in order.  No block is empty, and none has more names than its line takes.  One that has
  fewer is the last, or the next name and a character behind it would go beyond the column.
* Without a column the number of blocks is that of full lines, the last one rounded up.
* With a column every line of the text, the character that closes it counted, ends within the
  column or holds one name. -/
theorem render_layout (rule : WrapRule) {lead : String} (oneLine : OneLine lead)
    {names : List String} (ne_nil : names ≠ []) (oneLines : ∀ n ∈ names, OneLine n) :
    let T := rule.first
    let W := max 1 rule.each
    let F := if T = 0 then W else T
    let c := rule.column
    let line := lead ++ ", ".intercalate names
    let indent := lead.length + 1
    let isFlat := rule.disabled = true ∨ names.length ≤ T ∧ (c = 0 ∨ line.length ≤ c)
    (render rule lead names = line ↔ isFlat) ∧
    (¬ isFlat → ∃ blocks : List (List String),
      render rule lead names = lead ++ "(" ++
        (",\n" ++ blanks indent).intercalate (blocks.map fun block => ", ".intercalate block) ++
          ")" ∧
      [] ∉ blocks ∧ blocks.flatten = names ∧
      (∀ i block, blocks[i]? = some block → block.length ≤ if i = 0 then F else W) ∧
      (∀ i block next behind, blocks[i]? = some block → blocks[i + 1]? = some (next :: behind) →
        (block.length < if i = 0 then F else W) →
          0 < c ∧ c < indent + (", ".intercalate (block ++ [next])).length + 1) ∧
      (c = 0 → blocks.length = (names.length - F + (W - 1)) / W + 1)) ∧
    (rule.disabled = false → 0 < c →
      ∀ l ∈ linesOf (render rule lead names), l.length ≤ c ∨ HoldsOne lead names l) := by
  intro T W F c line indent isFlat
  have all := flatten_wrapLines rule indent names
  have packs := packs_wrapLines rule indent names
  have noEmpty : [] ∉ wrapLines rule indent names := nil_not_mem_wrapFrom _ _ _ _ _ _
  refine ⟨render_eq_unwrapped_iff, ?_, ?_⟩
  · intro goes
    refine ⟨wrapLines rule indent names, render_of_not_isFlat goes, noEmpty, all, ?_, ?_, ?_⟩
    · intro i block at_
      exact (packs.splits.fits i block at_).room
    · intro i block next behind at_ next_ less
      have beyond := packs.column_lt at_ next_ (by rwa [Nat.zero_add])
      rw [← length_flat] at beyond
      exact beyond
    · intro noColumn
      have count := packs.length_eq noColumn (room_pos rule indent 1)
        (wrapLines_ne_nil ne_nil rule indent)
      rwa [all] at count
  · intro enabled column l mem
    exact ends_within_column oneLine oneLines ne_nil enabled column mem

/-- The second name would end behind the column, and the third one does. -/
theorem render_layout_of_column :
    let rule : WrapRule := { first := 3, each := 2, column := 12 }
    let names := ["aa", "b", "long_name"]
    OneLine "import " ∧ (∀ n ∈ names, OneLine n) ∧
      render rule "import " names = "import (aa,\n        b,\n        long_name)" ∧
      (∃ blocks : List (List String), [] ∉ blocks ∧ blocks.flatten = names ∧
        ∀ i block, blocks[i]? = some block → block.length ≤ if i = 0 then 3 else 2) ∧
      ∀ l ∈ linesOf (render rule "import " names), l.length ≤ 12 ∨ HoldsOne "import " names l := by
  intro rule names
  have oneLine : OneLine "import " := by simp [OneLine]
  have oneLines : ∀ n ∈ names, OneLine n := by simp [names, OneLine]
  obtain ⟨-, inBlocks, ends⟩ := render_layout rule oneLine (List.cons_ne_nil _ _) oneLines
  obtain ⟨blocks, -, noEmpty, all, room, -, -⟩ := inBlocks (by decide +kernel)
  exact ⟨oneLine, oneLines, by decide +kernel, ⟨blocks, noEmpty, all, room⟩, ends rfl (by decide)⟩

end ImportTidy.Layout
