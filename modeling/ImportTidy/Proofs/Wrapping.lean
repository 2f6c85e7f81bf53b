import ImportTidy.Proofs.Rendering

/-!
# Wrapping takes the fewest lines

The names of a wrapped statement stand on lines that keep to `Limits`: each line has a name,
no more names than it has room for, and a line with two names or more ends within the column.
There are many ways to split names into such lines (`Limits.Splits`).

`wrapLines` packs them: no line of its split has room for the name behind it
(`packs_wrapLines`).  This is one induction over the names, with the line that is not yet
closed as its invariant.

From there on the loop does not matter.  What fits on a line still fits when names at either
end are taken away (`Limits.Fits.part`).  So packed lines are never behind another split.  If
they were for the first time after some line, then that line of the other split would hold the
packed one and the name behind it (`Limits.Packs.ahead`).
-/

namespace ImportTidy.Layout

/-! ## Widths -/

/-- The width of names on a line, with a comma and a blank between each two. -/
def width (names : List String) : Nat :=
  (names.map String.length).sum + 2 * (names.length - 1)

theorem width_cons_cons (name next : String) (names : List String) :
    width (name :: next :: names) = name.length + 2 + width (next :: names) := by
  simp only [width, List.map_cons, List.sum_cons, List.length_cons]
  omega

theorem width_concat (names : List String) (name : String) :
    width (names ++ [name]) = width names + advance names.isEmpty name := by
  cases names with
  | nil => simp [width, advance]
  | cons first names =>
    simp [width, advance]
    omega

theorem width_append {names names' : List String} (some : names ≠ []) (some' : names' ≠ []) :
    width (names ++ names') = width names + 2 + width names' := by
  have := List.length_pos_iff.mpr some
  have := List.length_pos_iff.mpr some'
  simp only [width, List.map_append, List.sum_append_nat, List.length_append]
  omega

theorem length_flat (names : List String) : (flat names).length = width names := by
  induction names with
  | nil => rfl
  | cons name names ih =>
    cases names with
    | nil => simp [flat, width]
    | cons next names =>
      rw [flat, String.intercalate_cons_cons, ← flat, String.length_append, String.length_append,
        ih, width_cons_cons]
      rfl

/-- Fewer names are not wider. -/
theorem width_le_of_part {part names : List String} (inside : part <:+: names) :
    width part ≤ width names := by
  obtain ⟨front, behind, rfl⟩ := inside
  simp only [width, List.map_append, List.sum_append_nat, List.length_append]
  omega

/-! ## Limits -/

/-- What the lines of a wrapped statement keep to. -/
structure Limits where
  /-- The column at which the names of a line start. -/
  indent : Nat
  /-- The most names of the first line. -/
  first : Nat
  /-- The most names of every other line. -/
  each : Nat
  /-- The last column, if it is not zero. -/
  column : Nat

/-- The limits that a rule sets for names that start at `indent`. -/
def limits (rule : WrapRule) (indent : Nat) : Limits where
  indent := indent
  first := if rule.first = 0 then max 1 rule.each else rule.first
  each := max 1 rule.each
  column := rule.column

namespace Limits

variable {L : Limits} {place : Nat} {names line : List String} {lines lines' : List (List String)}

/-- The most names of the line behind `place` others. -/
def room (L : Limits) (place : Nat) : Nat := if place = 0 then L.first else L.each

/-- The names can stand on the line behind `place` others.  Where there is more than one of
them, the line and the character that closes it end within the column. -/
structure Fits (L : Limits) (place : Nat) (line : List String) : Prop where
  ne_nil : line ≠ []
  room : line.length ≤ L.room place
  column : 0 < L.column → 2 ≤ line.length → L.indent + width line + 1 ≤ L.column

/-- The names are split into lines on which they can stand. -/
structure Splits (L : Limits) (names : List String) (lines : List (List String)) : Prop where
  flatten : lines.flatten = names
  fits : ∀ i line, lines[i]? = some line → L.Fits i line

/-- The names can stand on these lines, which stand behind `place` others, and no line has
room for the name behind it. -/
structure Packs (L : Limits) (place : Nat) (lines : List (List String)) : Prop where
  fits : ∀ i line, lines[i]? = some line → L.Fits (place + i) line
  full : ∀ i line name names, lines[i]? = some line → lines[i + 1]? = some (name :: names) →
    ¬ L.Fits (place + i) (line ++ [name])

/-- What is left of a line when names at its ends are taken away can stand there too. -/
theorem Fits.part (h : L.Fits place line) {part : List String} (inside : part <:+: line)
    (some : part ≠ []) : L.Fits place part where
  ne_nil := some
  room := Nat.le_trans inside.length_le h.room
  column := fun set two => by
    have wide := width_le_of_part inside
    have within := h.column set (Nat.le_trans two inside.length_le)
    omega

theorem Packs.nil : L.Packs place [] := ⟨nofun, nofun⟩

/-- A line in front of packed ones. -/
theorem Packs.cons (fits : L.Fits place line)
    (full : ∀ name names, lines[0]? = some (name :: names) → ¬ L.Fits place (line ++ [name]))
    (others : L.Packs (place + 1) lines) : L.Packs place (line :: lines) := by
  have next : ∀ i, place + (i + 1) = place + 1 + i := fun i => by omega
  constructor
  · intro i l at_
    cases i with
    | zero =>
      cases at_
      exact fits
    | succ i =>
      rw [next]
      exact others.fits i l at_
  · intro i l name names at_ behind
    cases i with
    | zero =>
      cases at_
      exact full name names behind
    | succ i =>
      rw [next]
      exact others.full i l name names at_ behind

theorem Packs.tail (h : L.Packs place (line :: lines)) : L.Packs (place + 1) lines := by
  have next : ∀ i, place + 1 + i = place + (i + 1) := fun i => by omega
  constructor
  · intro i l at_
    rw [next]
    exact h.fits (i + 1) l at_
  · intro i l name names at_ behind
    rw [next]
    exact h.full (i + 1) l name names at_ behind

/-- Where a line has fewer names than it has room for, the next name would go beyond the
column. -/
theorem Packs.column_lt (h : L.Packs place lines) {i : Nat} {name : String} {names : List String}
    (here : lines[i]? = some line) (behind : lines[i + 1]? = some (name :: names))
    (less : line.length < L.room (place + i)) :
    0 < L.column ∧ L.column < L.indent + width (line ++ [name]) + 1 := by
  by_contra within
  refine h.full i line name names here behind ⟨by simp, ?_, ?_⟩
  · rw [List.length_append, List.length_singleton]
    exact less
  · intro set _
    exact Nat.le_of_not_lt fun beyond => within ⟨set, beyond⟩

theorem Packs.splits (h : L.Packs 0 lines) : L.Splits lines.flatten lines where
  flatten := rfl
  fits := fun i line at_ => by
    have fits := h.fits i line at_
    rwa [Nat.zero_add] at fits

/-- Two cuts of one text: what lies inside by its ends is a part. -/
theorem part_of_append_eq {α : Type} {front part behind front' part' behind' : List α}
    (same : front ++ part ++ behind = front' ++ part' ++ behind')
    (starts : front'.length ≤ front.length)
    (stops : (front ++ part).length ≤ (front' ++ part').length) : part <:+: part' := by
  have ends : front ++ part <+: front' ++ part' :=
    List.prefix_of_prefix_length_le (List.prefix_append _ behind)
      (same ▸ List.prefix_append _ behind') stops
  have begins : front' <+: front :=
    List.prefix_of_prefix_length_le (List.prefix_append front' part')
      ((List.prefix_append front part).trans ends) starts
  obtain ⟨skipped, rfl⟩ := begins
  rw [List.append_assoc, List.prefix_append_right_inj] at ends
  obtain ⟨rest, rfl⟩ := ends
  exact ⟨skipped, rest, rfl⟩

/-- The names of a split, cut around one of its lines. -/
theorem flatten_take_append {i : Nat} (at_ : lines[i]? = some line) :
    (lines.take i).flatten ++ line ++ (lines.drop (i + 1)).flatten = lines.flatten ∧
      (lines.take (i + 1)).flatten = (lines.take i).flatten ++ line := by
  have upTo : (lines.take (i + 1)).flatten = (lines.take i).flatten ++ line := by
    rw [List.take_add_one, at_]
    simp
  refine ⟨?_, upTo⟩
  rw [← upTo, ← List.flatten_append, List.take_append_drop]

theorem length_flatten_take_le (k : Nat) :
    (lines.take k).flatten.length ≤ lines.flatten.length := by
  have all : (lines.take k).flatten ++ (lines.drop k).flatten = lines.flatten := by
    rw [← List.flatten_append, List.take_append_drop]
  rw [← all, List.length_append]
  exact Nat.le_add_right _ _

/-- Packed lines are never behind another split of their names. -/
theorem Packs.ahead (h : L.Packs 0 lines) (other : L.Splits lines.flatten lines') (k : Nat) :
    (lines'.take k).flatten.length ≤ (lines.take k).flatten.length := by
  induction k with
  | zero => simp
  | succ k ih =>
    cases here : lines[k]? with
    | none =>
      have all : lines.length ≤ k + 1 := Nat.le_succ_of_le (List.getElem?_eq_none_iff.mp here)
      rw [List.take_of_length_le all, ← other.flatten]
      exact length_flatten_take_le (k + 1)
    | some line =>
      obtain ⟨cut, upTo⟩ := flatten_take_append here
      cases there : lines'[k]? with
      | none =>
        have all : lines'.length ≤ k := List.getElem?_eq_none_iff.mp there
        rw [List.take_of_length_le (Nat.le_succ_of_le all), ← List.take_of_length_le all, upTo,
          List.length_append]
        exact Nat.le_add_right_of_le ih
      | some line' =>
        obtain ⟨cut', upTo'⟩ := flatten_take_append there
        -- Otherwise the other line holds the packed one and a name of the next.
        refine Nat.le_of_not_lt fun behind => ?_
        have left : (lines.drop (k + 1)).flatten ≠ [] := fun none => by
          have within : (lines'.take (k + 1)).flatten.length ≤ _ := length_flatten_take_le (k + 1)
          rw [other.flatten, ← cut, none, List.append_nil, ← upTo] at within
          exact Nat.not_le_of_lt behind within
        cases rest : lines.drop (k + 1) with
        | nil =>
          rw [rest] at left
          exact left rfl
        | cons next more =>
          have next_ : lines[k + 1]? = some next := by
            rw [← List.head?_drop, rest]
            rfl
          obtain ⟨name, names, rfl⟩ := List.exists_cons_of_ne_nil (h.fits _ _ next_).ne_nil
          have inside : line ++ [name] <:+: line' := by
            have both : (lines.take k).flatten ++ (line ++ [name]) ++ (names ++ more.flatten) =
                (lines'.take k).flatten ++ line' ++ (lines'.drop (k + 1)).flatten := by
              rw [cut', other.flatten, ← cut, rest]
              simp
            refine part_of_append_eq both ih ?_
            · rw [← upTo', ← List.append_assoc, ← upTo, List.length_append]
              exact behind
          have full := h.full k line name names here next_
          rw [Nat.zero_add] at full
          exact full ((other.fits k line' there).part inside (by simp))

/-- So they are not more. -/
theorem Packs.length_le (h : L.Packs 0 lines) (other : L.Splits lines.flatten lines') :
    lines.length ≤ lines'.length := by
  refine Nat.le_of_not_lt fun more => ?_
  have ahead := h.ahead other lines'.length
  have here := List.getElem?_eq_getElem more
  have some := List.length_pos_iff.mpr (h.fits _ _ here).ne_nil
  obtain ⟨cut, -⟩ := flatten_take_append here
  have length := congrArg List.length cut
  rw [List.take_length, other.flatten] at ahead
  simp only [List.length_append] at length
  omega

end Limits

/-! ## The lines of a wrapped statement -/

section

variable {rule : WrapRule} {indent place : Nat}

theorem room_pos (rule : WrapRule) (indent place : Nat) :
    1 ≤ (limits rule indent).room place := by
  have each : 1 ≤ max 1 rule.each := Nat.le_max_left ..
  simp only [Limits.room, limits]
  split
  · split
    · exact each
    · omega
  · exact each

/-- A name can stand alone on every line. -/
theorem fits_singleton (name : String) : (limits rule indent).Fits place [name] where
  ne_nil := List.cons_ne_nil name []
  room := room_pos rule indent place
  column := fun _ two => absurd two (by simp)

theorem capacity_eq (rule : WrapRule) (indent place : Nat) :
    capacity rule (place = 0) = (limits rule indent).room place := by
  by_cases isFirst : place = 0
  · by_cases none : rule.first = 0 <;>
      simp [capacity, Limits.room, limits, isFirst, none, Nat.pos_iff_ne_zero, Nat.max_comm]
  · simp [capacity, Limits.room, limits, isFirst, Nat.max_comm]

/-- One more name can stand on a line that has room for it. -/
theorem Limits.fits_concat_iff {L : Limits} {line : List String} {name : String} :
    L.Fits place (line ++ [name]) ↔ line.length < L.room place ∧
      (0 < L.column → line ≠ [] →
        L.indent + width line + advance line.isEmpty name + 1 ≤ L.column) := by
  have wide := width_concat line name
  have two : 2 ≤ (line ++ [name]).length ↔ line ≠ [] := by
    rw [List.length_append, List.length_singleton, ← List.length_pos_iff]
    omega
  constructor
  · intro h
    have room := h.room
    rw [List.length_append, List.length_singleton] at room
    refine ⟨room, fun set some => ?_⟩
    have column := h.column set (two.mpr some)
    omega
  · rintro ⟨room, column⟩
    refine ⟨by simp, ?_, fun set more => ?_⟩
    · rw [List.length_append, List.length_singleton]
      exact room
    · have within := column set (two.mp more)
      omega

/-- A line is full for a name exactly if the name cannot stand on it.  `line` has its names
newest first. -/
theorem isFull_iff (line : List String) (name : String) :
    isFull rule (place = 0) (indent + width line.reverse) line name = true ↔
      ¬ (limits rule indent).Fits place (line.reverse ++ [name]) := by
  rw [isFull, capacity_eq rule indent place, Limits.fits_concat_iff]
  simp only [List.length_reverse, List.isEmpty_reverse, ne_eq, List.reverse_eq_nil_iff,
    Bool.or_eq_true, Bool.and_eq_true, decide_eq_true_eq, Bool.not_eq_true',
    List.isEmpty_eq_false_iff, not_and_or, Nat.not_lt, Classical.not_imp, Nat.not_le, limits,
    ge_iff_le, gt_iff_lt, and_assoc]

/-- The names that come behind an open line start with its own. -/
theorem head_wrapFrom {isFirst : Bool} {wide : Nat} {name : String} {names : List String}
    {first : String} {more : List String}
    (at_ : (wrapFrom rule indent isFirst wide [name] names)[0]? = some (first :: more)) :
    first = name := by
  have all := flatten_wrapFrom rule indent isFirst wide [name] names
  cases lines : wrapFrom rule indent isFirst wide [name] names with
  | nil => simp [lines] at at_
  | cons line lines' =>
    rw [lines] at at_ all
    cases at_
    exact (List.cons.inj all).1

/-- The loop packs the names, if the line that is not yet closed can stand where it is. -/
theorem packs_wrapFrom {line : List String} (names : List String)
    (fits : line = [] ∨ (limits rule indent).Fits place line.reverse) :
    (limits rule indent).Packs place
      (wrapFrom rule indent (place = 0) (indent + width line.reverse) line names) := by
  induction names generalizing place line with
  | nil =>
    rcases fits with rfl | fits
    · exact .nil
    · have some : line.isEmpty = false := by simpa using fits.ne_nil
      rw [wrapFrom, some]
      refine .cons fits (fun first more behind => ?_) .nil
      cases behind
  | cons name names ih =>
    rw [wrapFrom]
    split
    next full =>
      have cannot := (isFull_iff line name).mp full
      have open_ := fits.resolve_left (ne_nil_of_isFull full)
      refine .cons open_ (fun first more behind => ?_) ?_
      · rw [head_wrapFrom behind]
        exact cannot
      · have alone : (limits rule indent).Fits (place + 1) [name].reverse := fits_singleton name
        have others := ih (.inr alone)
        simpa [width, advance] using others
    next room =>
      have can := Classical.not_not.mp (mt (isFull_iff line name).mpr room)
      rw [← List.reverse_cons] at can
      have others := ih (.inr can)
      rw [List.reverse_cons, width_concat, List.isEmpty_reverse, ← Nat.add_assoc] at others
      exact others

/-- Names are wrapped into packed lines. -/
theorem packs_wrapLines (rule : WrapRule) (indent : Nat) (names : List String) :
    (limits rule indent).Packs 0 (wrapLines rule indent names) :=
  packs_wrapFrom names (.inl rfl)

end

/-- Names are wrapped into lines within the limits, and no split within them has fewer lines.
Counted from the start, so many lines of the split never have more names than as many of the
wrapped ones. -/
theorem wrapLines_fewest (rule : WrapRule) (indent : Nat) {names : List String}
    {lines : List (List String)} (splits : (limits rule indent).Splits names lines) :
    (limits rule indent).Splits names (wrapLines rule indent names) ∧
      (wrapLines rule indent names).length ≤ lines.length ∧
      ∀ k, (lines.take k).flatten.length ≤
        ((wrapLines rule indent names).take k).flatten.length := by
  have packs := packs_wrapLines rule indent names
  have all := flatten_wrapLines rule indent names
  have other : (limits rule indent).Splits (wrapLines rule indent names).flatten lines := by
    rwa [all]
  refine ⟨?_, packs.length_le other, packs.ahead other⟩
  have own := packs.splits
  rwa [all] at own

/-- A name that is too long stands alone, also in the split that breaks the first line early. -/
theorem wrapLines_fewest_of_column :
    let rule : WrapRule := { first := 0, each := 3, column := 14 }
    let lines := [["aa"], ["b", "c"], ["a_long_name"], ["d"]]
    (limits rule 8).Splits lines.flatten lines ∧
      wrapLines rule 8 lines.flatten = [["aa", "b"], ["c"], ["a_long_name"], ["d"]] ∧
      ∀ k, (lines.take k).flatten.length ≤
        ((wrapLines rule 8 lines.flatten).take k).flatten.length := by
  intro rule lines
  have splits : (limits rule 8).Splits lines.flatten lines := by
    refine ⟨rfl, fun i line at_ => ?_⟩
    match i, at_ with
    | 0, rfl => exact fits_singleton "aa"
    | 1, rfl => exact ⟨by simp, by decide, by decide⟩
    | 2, rfl => exact fits_singleton "a_long_name"
    | 3, rfl => exact fits_singleton "d"
  exact ⟨splits, by decide +kernel, (wrapLines_fewest rule 8 splits).2.2⟩

end ImportTidy.Layout
