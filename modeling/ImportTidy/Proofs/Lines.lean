import ImportTidy.Feed

/-!
# Reading lines back

A text whose lines end in newlines is fed line by line, if no line is over the limit.
The newline of a line is the first byte of its kind: in UTF-8 it stands for itself and
for nothing else, so no other character of the line has that byte
(`newline_not_mem_encode`).  `Feed.after_unlines` is the induction over the lines.

The two greatest limits are left out.  Under them a read takes one byte or none.

A text that two limits let pass is fed alike under both (`Feed.after_eq_of_ok`), since a
read that fails for neither of them ends with its line, and not where the limit cuts it.
-/

namespace ImportTidy

/-- The lines of a text.  The last one is what stands behind the last newline. -/
def linesOf (text : String) : List String := (text.toList.splitOn '\n').map String.ofList

/-- The text of lines, a newline behind each. -/
def unlines (ls : List String) : String := String.join (ls.map (· ++ "\n"))

/-- The text has no newline. -/
def OneLine (l : String) : Prop := '\n' ∉ l.toList

theorem unlines_nil : unlines [] = "" := rfl

theorem unlines_cons (l : String) (ls : List String) :
    unlines (l :: ls) = l ++ "\n" ++ unlines ls := by
  simp [unlines, String.join_cons]

theorem unlines_append (ls ls' : List String) :
    unlines (ls ++ ls') = unlines ls ++ unlines ls' := by
  rw [unlines, List.map_append, String.join_append, unlines, unlines]

/-- Lines are cut where they were joined. -/
theorem linesOf_unlines {ls : List String} (h : ∀ l ∈ ls, OneLine l) :
    linesOf (unlines ls) = ls ++ [""] := by
  induction ls with
  | nil => rfl
  | cons l ls ih =>
    obtain ⟨first, others⟩ := List.forall_mem_cons.mp h
    have chars : (unlines (l :: ls)).toList = l.toList ++ '\n' :: (unlines ls).toList := by
      simp [unlines_cons]
    have noNewline : ∀ c ∈ l.toList, (c == '\n') = false := by
      rintro c hc
      refine beq_eq_false_iff_ne.mpr ?_
      rintro rfl
      exact first hc
    have cut := List.splitOnP_append_cons_of_forall_mem noNewline '\n' rfl (unlines ls).toList
    have rest := ih others
    rw [linesOf, List.splitOn] at rest ⊢
    rw [chars, cut, List.map_cons, rest, String.ofList_toList]
    rfl

/-! ## The byte of a newline -/

theorem encode_ofList_cons (c : Char) (cs : List Char) :
    Utf8.encode (String.ofList (c :: cs)) =
      String.utf8EncodeChar c ++ Utf8.encode (String.ofList cs) := by
  simp [Utf8.encode, List.utf8Encode]

/-- Only a newline has the byte of one. -/
theorem newline_not_mem_utf8EncodeChar {c : Char} (h : c ≠ '\n') :
    newline ∉ String.utf8EncodeChar c := by
  have value : c.val.toNat ≠ 10 := fun same => h (Char.ext (UInt32.toNat_inj.mp same))
  have bound : c.val.toNat < 0x110000 := by
    have valid := c.valid
    simp only [UInt32.isValidChar, Nat.isValidChar] at valid
    omega
  unfold String.utf8EncodeChar
  simp only [newline]
  split
  · simp only [List.mem_singleton, ← UInt8.toNat_inj, UInt8.toNat_ofNat', UInt8.reduceToNat]
    omega
  · split
    · simp only [List.mem_cons, List.not_mem_nil, or_false, ← UInt8.toNat_inj,
        UInt8.toNat_ofNat', UInt8.reduceToNat]
      omega
    · split
      · simp only [List.mem_cons, List.not_mem_nil, or_false, ← UInt8.toNat_inj,
          UInt8.toNat_ofNat', UInt8.reduceToNat]
        omega
      · simp only [List.mem_cons, List.not_mem_nil, or_false, ← UInt8.toNat_inj,
          UInt8.toNat_ofNat', UInt8.reduceToNat]
        omega

theorem newline_not_mem_encode {l : String} (h : OneLine l) : newline ∉ Utf8.encode l := by
  obtain ⟨cs, rfl⟩ : ∃ cs, l = String.ofList cs := ⟨l.toList, String.ofList_toList.symm⟩
  rw [OneLine, String.toList_ofList] at h
  induction cs with
  | nil => simp [Utf8.encode]
  | cons c cs ih =>
    obtain ⟨first, others⟩ := not_or.mp (mt List.mem_cons.mpr h)
    rw [encode_ofList_cons, List.mem_append, not_or]
    exact ⟨newline_not_mem_utf8EncodeChar (Ne.symm first), ih others⟩

/-! ## Feeds -/

/-- A line with room for its newline is cut behind it. -/
theorem cutLine_line {line : List UInt8} (noNewline : newline ∉ line) {span : Nat}
    (room : line.length < span) (rest : List UInt8) :
    cutLine span (line ++ newline :: rest) = (line ++ [newline], rest) := by
  induction line generalizing span with
  | nil =>
    obtain ⟨span, rfl⟩ := Nat.exists_eq_succ_of_ne_zero (Nat.ne_of_gt room)
    simp [cutLine]
  | cons b line ih =>
    obtain ⟨span, rfl⟩ := Nat.exists_eq_succ_of_ne_zero (Nat.ne_of_gt (Nat.zero_lt_of_lt room))
    obtain ⟨first, others⟩ := not_or.mp (mt List.mem_cons.mpr noNewline)
    have rest := ih others (Nat.lt_of_succ_lt_succ room)
    simp [cutLine, Ne.symm first, rest]

/-- The content of a line is not longer than the line. -/
theorem length_lineContent_le (line : List UInt8) :
    (lineContent (line ++ [newline])).length ≤ line.length := by
  simp only [lineContent, List.reverse_append, List.reverse_cons, List.reverse_nil, List.nil_append,
    List.cons_append, if_true]
  cases h : line.reverse with
  | nil => simp
  | cons c rest =>
    have length := congrArg List.length h
    simp only [List.length_reverse, List.length_cons] at length
    dsimp only
    split <;> simp <;> omega

theorem cutLine_nil (span : Nat) : cutLine span [] = ([], []) := by
  cases span <;> rfl

/-- A feed ends where nothing is cut off. -/
theorem Feed.after_of_no_cut {limit : UInt64} {bytes rest : List UInt8}
    (cut : cutLine (readSpan limit) bytes = ([], rest)) (n : Nat) :
    Feed.after limit n bytes = [] := by
  rw [Feed.after]
  split
  next => rfl
  next b line rest' cut' =>
    rw [cut] at cut'
    cases cut'

theorem Feed.after_nil (limit : UInt64) (n : Nat) : Feed.after limit n [] = [] :=
  Feed.after_of_no_cut (cutLine_nil _) n

theorem Feed.after_of_cut {limit : UInt64} {bytes line rest : List UInt8} {b : UInt8}
    (cut : cutLine (readSpan limit) bytes = (b :: line, rest)) (n : Nat) :
    Feed.after limit n bytes =
      judgeLine limit (n + 1) (b :: line) :: Feed.after limit (n + 1) rest := by
  rw [Feed.after]
  split
  next rest' cut' =>
    rw [cut] at cut'
    cases cut'
  next b' line' rest' cut' =>
    rw [cut] at cut'
    cases cut'
    rfl

/-- A read takes two bytes more than the limit, unless that number is too great. -/
theorem readSpan_eq {limit : UInt64} (small : limit.toNat < UInt64.size - 2) :
    readSpan limit = limit.toNat + 2 := by
  rw [readSpan, UInt64.toNat_add]
  exact Nat.mod_eq_of_lt (Nat.add_lt_of_lt_sub small)

theorem readSpan_pos {limit : UInt64} (small : limit.toNat < UInt64.size - 2) :
    0 < readSpan limit := by
  rw [readSpan_eq small]
  omega

theorem encode_unlines_cons (l : String) (ls : List String) :
    Utf8.encode (unlines (l :: ls)) = Utf8.encode l ++ newline :: Utf8.encode (unlines ls) := by
  rw [unlines_cons, Utf8.encode_append, Utf8.encode_append, List.append_assoc]
  rfl

/-- A line with room for its newline is one read. -/
theorem Feed.after_line {limit : UInt64} {l : String} (oneLine : OneLine l)
    (room : (Utf8.encode l).length < readSpan limit) (n : Nat) (rest : List UInt8) :
    Feed.after limit n (Utf8.encode l ++ newline :: rest) =
      judgeLine limit (n + 1) (Utf8.encode l ++ [newline]) :: Feed.after limit (n + 1) rest := by
  have cut := cutLine_line (newline_not_mem_encode oneLine) room rest
  obtain ⟨b, line, first⟩ := List.exists_cons_of_ne_nil
    (List.append_ne_nil_of_right_ne_nil (Utf8.encode l) (List.cons_ne_nil newline []))
  rw [first] at cut ⊢
  exact Feed.after_of_cut cut n

theorem encode_line (l : String) : Utf8.encode (l ++ "\n") = Utf8.encode l ++ [newline] := by
  rw [Utf8.encode_append]
  rfl

theorem decode_line (l : String) : Utf8.decode (Utf8.encode l ++ [newline]) = .ok (l ++ "\n") := by
  rw [← encode_line, Utf8.decode_encode]

/-- A text of short lines is fed line by line. -/
theorem Feed.after_unlines {limit : UInt64} (small : limit.toNat < UInt64.size - 2)
    {ls : List String}
    (short : ∀ l ∈ ls, OneLine l ∧ l.utf8ByteSize ≤ limit.toNat) (n : Nat) :
    Feed.after limit n (Utf8.encode (unlines ls)) = ls.map fun l => .ok (l ++ "\n") := by
  induction ls generalizing n with
  | nil => exact Feed.after_nil limit n
  | cons l ls ih =>
    obtain ⟨⟨oneLine, size⟩, others⟩ := List.forall_mem_cons.mp short
    have room : (Utf8.encode l).length < readSpan limit := by
      rw [readSpan_eq small, Utf8.length_encode]
      omega
    have judged : judgeLine limit (n + 1) (Utf8.encode l ++ [newline]) = .ok (l ++ "\n") := by
      have content := length_lineContent_le (Utf8.encode l)
      rw [Utf8.length_encode] at content
      rw [judgeLine, if_neg (by omega), decode_line]
    rw [encode_unlines_cons, Feed.after_line oneLine room, judged, ih others, List.map_cons]

/-! ## Other limits -/

/-- A read that takes a whole line takes the same under every greater span. -/
theorem cutLine_of_whole {span span' : Nat} {bytes : List UInt8}
    (whole : newline ∈ (cutLine span bytes).1 ∨ (cutLine span bytes).1.length < span)
    (le : span ≤ span') : cutLine span' bytes = cutLine span bytes := by
  induction bytes generalizing span span' with
  | nil => rw [cutLine_nil, cutLine_nil]
  | cons b bytes ih =>
    cases span with
    | zero => simp [cutLine] at whole
    | succ span =>
      obtain ⟨span', rfl⟩ :=
        Nat.exists_eq_add_of_le' (Nat.le_trans (Nat.succ_le_succ span.zero_le) le)
      by_cases ends : b = newline
      · simp [cutLine, ends]
      · have rest : cutLine span' bytes = cutLine span bytes := by
          refine ih ?_ (Nat.le_of_succ_le_succ le)
          simpa [cutLine, ends, Ne.symm ends] using whole
        simp [cutLine, ends, rest]

/-- Without a newline all of a line is content. -/
theorem lineContent_of_not_mem {line : List UInt8} (noNewline : newline ∉ line) :
    lineContent line = line := by
  unfold lineContent
  split
  next empty => rw [List.reverse_eq_nil_iff.mp empty]
  next b front reversed =>
    have last : b ∈ line := List.mem_reverse.mp (reversed ▸ List.mem_cons_self)
    have other : b ≠ newline := by
      rintro rfl
      exact noNewline last
    rw [if_neg other]

/-- A read that gives a line takes a whole one. -/
theorem whole_of_judgeLine {limit : UInt64} (small : limit.toNat < UInt64.size - 2) {n : Nat}
    {line : List UInt8} {text : String} (gives : judgeLine limit n line = .ok text) :
    newline ∈ line ∨ line.length < readSpan limit := by
  by_cases ends : newline ∈ line
  · exact .inl ends
  · rw [judgeLine, lineContent_of_not_mem ends] at gives
    split at gives
    next => cases gives
    next short =>
      rw [readSpan_eq small]
      exact .inr (by omega)

theorem decode_of_judgeLine {limit : UInt64} {n : Nat} {line : List UInt8} {text : String}
    (gives : judgeLine limit n line = .ok text) : Utf8.decode line = .ok text := by
  rw [judgeLine] at gives
  split at gives
  next => cases gives
  next =>
    split at gives
    next decoded =>
      cases gives
      exact decoded
    next => cases gives

/-- Two reads that give a line give the same one, whatever their limits are. -/
theorem cutLine_of_judgeLine {limit limit' : UInt64} (small : limit.toNat < UInt64.size - 2)
    (small' : limit'.toNat < UInt64.size - 2) {bytes line line' rest rest' : List UInt8} {n : Nat}
    {text text' : String} (cut : cutLine (readSpan limit) bytes = (line, rest))
    (cut' : cutLine (readSpan limit') bytes = (line', rest'))
    (gives : judgeLine limit n line = .ok text) (gives' : judgeLine limit' n line' = .ok text') :
    text' = text ∧ rest' = rest := by
  have whole := whole_of_judgeLine small gives
  have whole' := whole_of_judgeLine small' gives'
  have same : (line', rest') = (line, rest) := by
    rcases Nat.le_total (readSpan limit) (readSpan limit') with le | le
    · rw [← cut, ← cut']
      exact cutLine_of_whole (by rwa [cut]) le
    · rw [← cut, ← cut']
      exact (cutLine_of_whole (by rwa [cut']) le).symm
  cases same
  refine ⟨?_, rfl⟩
  have decoded := (decode_of_judgeLine gives).symm.trans (decode_of_judgeLine gives')
  exact (Except.ok.inj decoded).symm

theorem eq_nil_of_cutLine {span : Nat} (room : 0 < span) {bytes rest : List UInt8}
    (cut : cutLine span bytes = ([], rest)) : bytes = [] := by
  obtain ⟨span, rfl⟩ := Nat.exists_eq_succ_of_ne_zero (Nat.ne_of_gt room)
  cases bytes with
  | nil => rfl
  | cons b bytes =>
    rw [cutLine] at cut
    split at cut <;> cases cut

/-- Two limits under which every read gives a line have the same feed. -/
theorem Feed.after_eq_of_ok {limit limit' : UInt64} (small : limit.toNat < UInt64.size - 2)
    (small' : limit'.toNat < UInt64.size - 2) {n : Nat} {bytes : List UInt8}
    (ok : ∀ r ∈ Feed.after limit n bytes, ∃ text, r = .ok text)
    (ok' : ∀ r ∈ Feed.after limit' n bytes, ∃ text, r = .ok text) :
    Feed.after limit n bytes = Feed.after limit' n bytes := by
  induction n, bytes using Feed.after.induct limit with
  | case1 n bytes rest cut =>
    obtain rfl := eq_nil_of_cutLine (readSpan_pos small) cut
    rw [Feed.after_nil, Feed.after_nil]
  | case2 n bytes b line rest cut ih =>
    rw [Feed.after_of_cut cut] at ok ⊢
    obtain ⟨⟨text, gives⟩, others⟩ := List.forall_mem_cons.mp ok
    cases cut' : cutLine (readSpan limit') bytes with
    | mk line' rest' =>
      cases line' with
      | nil =>
        obtain rfl := eq_nil_of_cutLine (readSpan_pos small') cut'
        rw [cutLine_nil] at cut
        cases cut
      | cons b' line' =>
        rw [Feed.after_of_cut cut'] at ok' ⊢
        obtain ⟨⟨text', gives'⟩, others'⟩ := List.forall_mem_cons.mp ok'
        obtain ⟨rfl, rfl⟩ := cutLine_of_judgeLine small small' cut cut' gives gives'
        rw [gives, gives', ih others others']

end ImportTidy
