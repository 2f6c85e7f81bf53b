import ImportTidy.IgnoreFile
import ImportTidy.LineReader
import ImportTidy.Proofs.Idempotence

/-!
# The reads of a line reader

The reads of a line reader give the feed of the input, one after the other
(`LineReader.getElem?_after`), so what is said of its reads holds of every run over the input.

The lines of the input are cut behind each newline (`IgnoreFile.byteLines`).  A read cuts its
bytes behind the newline too, but at two bytes more than the limit at the latest.

* A line that ends there is read whole (`cutLine_of_short`).
* A longer one is cut in front of its newline, so the read has more content than the limit,
  and so has the line (`judgeLine_cutLine`).

So a read is judged as its line is, and `LineReader.reads_physical_lines` follows by an
induction over the reads.
-/

namespace ImportTidy

open IgnoreFile (byteLines)

/-! ## Physical lines -/

/-- Nothing is lost between the lines. -/
theorem flatten_byteLines (bytes : List UInt8) : (byteLines bytes).flatten = bytes := by
  induction bytes with
  | nil => rfl
  | cons b bytes ih =>
    rw [byteLines]
    split
    next => rw [List.flatten_cons, ih, List.singleton_append]
    next =>
      cases lines : byteLines bytes with
      | nil =>
        rw [lines] at ih
        rw [← ih]
        rfl
      | cons line more =>
        rw [lines] at ih
        rw [← ih]
        rfl

theorem eq_nil_of_byteLines {bytes : List UInt8} (none : byteLines bytes = []) : bytes = [] := by
  rw [← flatten_byteLines bytes, none]
  rfl

/-- The first line ends at the first newline, or at the end. -/
theorem byteLines_cons {b : UInt8} {bytes line : List UInt8} {lines : List (List UInt8)}
    (cut : byteLines (b :: bytes) = line :: lines) :
    b = newline ∧ line = [b] ∧ lines = byteLines bytes ∨
      b ≠ newline ∧ bytes = [] ∧ line = [b] ∧ lines = [] ∨
        b ≠ newline ∧ ∃ front, byteLines bytes = front :: lines ∧ line = b :: front := by
  rw [byteLines] at cut
  split at cut
  next ends =>
    cases cut
    exact .inl ⟨ends, rfl, rfl⟩
  next goesOn =>
    cases behind : byteLines bytes with
    | nil =>
      rw [behind] at cut
      cases cut
      exact .inr (.inl ⟨goesOn, eq_nil_of_byteLines behind, rfl, rfl⟩)
    | cons front more =>
      rw [behind] at cut
      cases cut
      exact .inr (.inr ⟨goesOn, front, rfl, rfl⟩)

theorem ne_nil_of_byteLines {bytes line : List UInt8} {lines : List (List UInt8)}
    (cut : byteLines bytes = line :: lines) : line ≠ [] := by
  cases bytes with
  | nil => cases cut
  | cons b bytes =>
    rcases byteLines_cons cut with ⟨-, rfl, -⟩ | ⟨-, -, rfl, -⟩ | ⟨-, front, -, rfl⟩
    · exact List.cons_ne_nil _ _
    · exact List.cons_ne_nil _ _
    · exact List.cons_ne_nil _ _

/-- The bytes behind the first line have the other lines. -/
theorem byteLines_flatten {bytes line : List UInt8} {lines : List (List UInt8)}
    (cut : byteLines bytes = line :: lines) : byteLines lines.flatten = lines := by
  induction bytes generalizing line with
  | nil => cases cut
  | cons b bytes ih =>
    rcases byteLines_cons cut with ⟨-, -, rfl⟩ | ⟨-, -, -, rfl⟩ | ⟨-, front, behind, -⟩
    · rw [flatten_byteLines]
    · rfl
    · exact ih behind

theorem byteLines_line {line : List UInt8} (noNewline : newline ∉ line) (rest : List UInt8) :
    byteLines (line ++ newline :: rest) =
      (line ++ [newline]) :: byteLines rest := by
  induction line with
  | nil =>
    rw [List.nil_append, byteLines, if_pos rfl]
    rfl
  | cons b line ih =>
    obtain ⟨first, others⟩ := not_or.mp (mt List.mem_cons.mpr noNewline)
    rw [List.cons_append, byteLines, if_neg (Ne.symm first), ih others]
    rfl

theorem cutLine_cons_of_ne {b : UInt8} (goesOn : b ≠ newline) (span : Nat) (bytes : List UInt8) :
    cutLine (span + 1) (b :: bytes) =
      (b :: (cutLine span bytes).1, (cutLine span bytes).2) := by
  rw [cutLine, if_neg goesOn]

/-- A read with room for a line takes the line. -/
theorem cutLine_of_short {bytes line : List UInt8} {lines : List (List UInt8)}
    (cut : byteLines bytes = line :: lines) {span : Nat} (room : line.length ≤ span) :
    cutLine span bytes = (line, lines.flatten) := by
  induction bytes generalizing line span with
  | nil => cases cut
  | cons b bytes ih =>
    cases span with
    | zero => exact absurd (List.length_eq_zero_iff.mp (Nat.le_zero.mp room)) (ne_nil_of_byteLines cut)
    | succ span =>
      rcases byteLines_cons cut with ⟨ends, rfl, rfl⟩ | ⟨goesOn, rfl, rfl, rfl⟩ |
        ⟨goesOn, front, behind, rfl⟩
      · rw [cutLine, if_pos ends, flatten_byteLines]
      · rw [cutLine_cons_of_ne goesOn, cutLine_nil]
        rfl
      · rw [cutLine_cons_of_ne goesOn, ih behind (Nat.le_of_succ_le_succ room)]

/-- A read without room for a line is filled by its front, which has no newline. -/
theorem cutLine_of_long {bytes line : List UInt8} {lines : List (List UInt8)}
    (cut : byteLines bytes = line :: lines) {span : Nat} (noRoom : span < line.length) :
    (cutLine span bytes).1 = line.take span ∧ newline ∉ line.take span := by
  induction bytes generalizing line span with
  | nil => cases cut
  | cons b bytes ih =>
    cases span with
    | zero => simp [cutLine]
    | succ span =>
      rcases byteLines_cons cut with ⟨-, rfl, -⟩ | ⟨-, -, rfl, -⟩ | ⟨goesOn, front, behind, rfl⟩
      · simp at noRoom
      · simp at noRoom
      · obtain ⟨taken, noNewline⟩ := ih behind (Nat.lt_of_succ_lt_succ noRoom)
        rw [cutLine_cons_of_ne goesOn, List.take_succ_cons, taken, List.mem_cons, not_or]
        exact ⟨rfl, goesOn.symm, noNewline⟩

theorem newline_not_mem_dropLast_cutLine (span : Nat) (bytes : List UInt8) :
    newline ∉ (cutLine span bytes).1.dropLast := by
  induction bytes generalizing span with
  | nil => simp [cutLine_nil]
  | cons b bytes ih =>
    cases span with
    | zero => simp [cutLine]
    | succ span =>
      by_cases ends : b = newline
      · simp [cutLine, ends]
      · have others := ih span
        rw [cutLine_cons_of_ne ends]
        cases behind : (cutLine span bytes).1 with
        | nil => simp
        | cons c taken =>
          rw [behind] at others
          rw [List.dropLast_cons_cons, List.mem_cons, not_or]
          exact ⟨Ne.symm ends, others⟩

/-- The content of a line is all of it but a final `CR LF` or `LF`. -/
theorem eq_lineContent_append (line : List UInt8) :
    line = lineContent line ++ [carriageReturn, newline] ∨
      line = lineContent line ++ [newline] ∧ (lineContent line).getLast? ≠ some carriageReturn ∨
        line = lineContent line ∧ line.getLast? ≠ some newline := by
  rw [← List.head?_reverse, ← List.head?_reverse]
  have back : line = line.reverse.reverse := line.reverse_reverse.symm
  cases reversed : line.reverse with
  | nil =>
    rw [List.reverse_eq_nil_iff.mp reversed]
    exact .inr (.inr ⟨rfl, (Option.some_ne_none _).symm⟩)
  | cons b front =>
    rw [reversed, List.reverse_cons] at back
    by_cases ends : b = newline
    · rw [ends] at back
      cases front with
      | nil =>
        simp only [lineContent, reversed, if_pos ends]
        exact .inr (.inl ⟨back, (Option.some_ne_none _).symm⟩)
      | cons c rest =>
        by_cases crlf : c = carriageReturn
        · rw [crlf, List.reverse_cons, List.append_assoc] at back
          simp only [lineContent, reversed, if_pos ends, if_pos crlf]
          exact .inl back
        · simp only [lineContent, reversed, if_pos ends, if_neg crlf]
          refine .inr (.inl ⟨back, ?_⟩)
          rw [List.reverse_reverse, List.head?_cons]
          exact fun same => crlf (Option.some.inj same)
    · have content : lineContent line = line := by simp only [lineContent, reversed, if_neg ends]
      refine .inr (.inr ⟨content.symm, ?_⟩)
      rw [List.head?_cons]
      exact fun same => ends (Option.some.inj same)

theorem length_le_length_lineContent (line : List UInt8) :
    line.length ≤ (lineContent line).length + 2 := by
  rcases eq_lineContent_append line with whole | ⟨whole, -⟩ | ⟨whole, -⟩
  · have length := congrArg List.length whole
    rw [List.length_append] at length
    exact Nat.le_of_eq length
  · have length := congrArg List.length whole
    rw [List.length_append] at length
    exact Nat.le_trans (Nat.le_of_eq length) (Nat.le_succ _)
  · have length := congrArg List.length whole
    exact Nat.le_trans (Nat.le_of_eq length) (Nat.le_add_right _ 2)

/-- A read has room for a line whose content is within the limit. -/
theorem length_le_readSpan {limit : UInt64} (small : limit.toNat < UInt64.size - 2)
    {line : List UInt8} (short : (lineContent line).length ≤ limit.toNat) :
    line.length ≤ readSpan limit := by
  rw [readSpan_eq small]
  exact Nat.le_trans (length_le_length_lineContent line) (Nat.add_le_add_right short 2)

/-- A read is judged as the line is at which it starts. -/
theorem judgeLine_cutLine {limit : UInt64} (small : limit.toNat < UInt64.size - 2)
    {bytes line : List UInt8} {lines : List (List UInt8)}
    (cut : byteLines bytes = line :: lines) (number : Nat) :
    judgeLine limit number (cutLine (readSpan limit) bytes).1 = judgeLine limit number line := by
  by_cases room : line.length ≤ readSpan limit
  · rw [cutLine_of_short cut room]
  · obtain ⟨taken, noNewline⟩ := cutLine_of_long cut (Nat.lt_of_not_le room)
    have content := length_le_length_lineContent line
    rw [readSpan_eq small] at room taken noNewline ⊢
    have long : (line.take (limit.toNat + 2)).length > limit.toNat := by
      rw [List.length_take]
      omega
    rw [taken, judgeLine, lineContent_of_not_mem noNewline, if_pos long, judgeLine,
      if_pos (by omega)]

/-- What the first read of an input gives depends on the first line only, and if it gives a text
then the next read is of the next line. -/
theorem Feed.after_first {limit : UInt64} (small : limit.toNat < UInt64.size - 2)
    {line : List UInt8} (noNewline : newline ∉ line) (n : Nat) (rest : List UInt8) :
    ∃ more, Feed.after limit n (line ++ newline :: rest) =
        judgeLine limit (n + 1) (line ++ [newline]) :: more ∧
      ∀ text, judgeLine limit (n + 1) (line ++ [newline]) = .ok text →
        more = Feed.after limit (n + 1) rest := by
  have lines := byteLines_line noNewline rest
  have judged := judgeLine_cutLine small lines (n + 1)
  cases cut : cutLine (readSpan limit) (line ++ newline :: rest) with
  | mk taken behind =>
    rw [cut] at judged
    cases taken with
    | nil =>
      have nothing := eq_nil_of_cutLine (readSpan_pos small) cut
      exact absurd nothing (List.append_ne_nil_of_right_ne_nil line (List.cons_ne_nil _ _))
    | cons b taken =>
      refine ⟨Feed.after limit (n + 1) behind, by rw [Feed.after_of_cut cut, judged], ?_⟩
      intro text gives
      have short : (lineContent (line ++ [newline])).length ≤ limit.toNat := by
        refine Nat.le_of_not_lt fun long => ?_
        rw [judgeLine, if_pos long] at gives
        cases gives
      have whole := cutLine_of_short lines (length_le_readSpan small short)
      rw [cut, flatten_byteLines] at whole
      rw [(Prod.mk.inj whole).2]

/-! ## Reads -/

namespace LineReader

variable {limit : UInt64} {r : LineReader}

theorem read_of_no_cut {rest : List UInt8} (cut : cutLine (readSpan limit) r.remaining = ([], rest)) :
    r.read limit = (.ok false, ⟨rest, r.linesRead, ""⟩) := by
  rw [read, cut]

theorem read_of_cut {b : UInt8} {line rest : List UInt8}
    (cut : cutLine (readSpan limit) r.remaining = (b :: line, rest)) :
    r.read limit =
      match judgeLine limit (r.linesRead + 1) (b :: line) with
      | .ok text => (.ok true, ⟨rest, r.linesRead + 1, text⟩)
      | .error e => (.error e, ⟨rest, r.linesRead + 1, ""⟩) := by
  cases judged : judgeLine limit (r.linesRead + 1) (b :: line) <;> simp only [read, cut, judged]

theorem after_succ (n : Nat) : r.after limit (n + 1) = (r.read limit).2.after limit n := by
  induction n with
  | zero => rfl
  | succ n ih => rw [after, ih, after]

/-! ## The feed of the reads -/

/-- The line or the fault that a read gives, if there was a line. -/
def told : Except ReadError Bool × LineReader → Option (Except ReadError String)
  | (.ok false, _) => none
  | (.ok true, r) => some (.ok r.line)
  | (.error e, _) => some (.error e)

/-- A feed has what the reads give. -/
theorem getElem?_after (r : LineReader) (k : Nat) :
    (Feed.after limit r.linesRead r.remaining)[k]? = told ((r.after limit k).read limit) := by
  induction k generalizing r with
  | zero =>
    cases cut : cutLine (readSpan limit) r.remaining with
    | mk line rest =>
      cases line with
      | nil =>
        rw [Feed.after_of_no_cut cut, after, read_of_no_cut cut]
        rfl
      | cons b line =>
        rw [Feed.after_of_cut cut, after, read_of_cut cut]
        cases judgeLine limit (r.linesRead + 1) (b :: line) <;> rfl
  | succ k ih =>
    rw [after_succ, ← ih]
    cases cut : cutLine (readSpan limit) r.remaining with
    | mk line rest =>
      cases line with
      | nil =>
        have nothing := cutLine_append (readSpan limit) r.remaining
        rw [cut, List.nil_append] at nothing
        subst nothing
        rw [read_of_no_cut cut, Feed.after_of_no_cut cut]
        rfl
      | cons b line =>
        rw [Feed.after_of_cut cut, read_of_cut cut]
        cases judgeLine limit (r.linesRead + 1) (b :: line) <;> rfl

/-! ## What is consumed -/

/-- The bytes that a read takes are in front of the others, and it takes none only where there
are none. -/
theorem exists_taken (small : limit.toNat < UInt64.size - 2) (r : LineReader) :
    ∃ taken, r.remaining = taken ++ (r.read limit).2.remaining ∧
      (taken = [] → r.remaining = []) ∧ taken.length ≤ limit.toNat + 2 ∧
      newline ∉ taken.dropLast := by
  have rest : (r.read limit).2.remaining = (cutLine (readSpan limit) r.remaining).2 := by
    cases cut : cutLine (readSpan limit) r.remaining with
    | mk line rest =>
      cases line with
      | nil => rw [read_of_no_cut cut]
      | cons b line =>
        rw [read_of_cut cut]
        cases judgeLine limit (r.linesRead + 1) (b :: line) <;> rfl
  refine ⟨(cutLine (readSpan limit) r.remaining).1, ?_, fun none => ?_, ?_, ?_⟩
  · rw [rest, cutLine_append]
  · exact eq_nil_of_cutLine (readSpan_pos small) (Prod.ext none rfl)
  · rw [← readSpan_eq small]
    exact length_cutLine_le _ _
  · exact newline_not_mem_dropLast_cutLine _ _

/-! ## Lines in order -/

/-- What a read gives for a line of this number, and the line that the reader keeps. -/
inductive Gives (limit : UInt64) (number : Nat) (line : List UInt8) :
    Except ReadError Bool → String → Prop where
  /-- The line as a text. -/
  | text {t : String} (short : (lineContent line).length ≤ limit.toNat)
      (isText : Utf8.encode t = line) : Gives limit number line (.ok true) t
  /-- A line with more content than the limit, whether it is a text or not. -/
  | tooLong (long : limit.toNat < (lineContent line).length) :
      Gives limit number line (.error (.tooLong number limit.toNat)) ""
  /-- A line that is no text. -/
  | noText {fault : Utf8.Fault} (short : (lineContent line).length ≤ limit.toNat)
      (noText : ∀ t, Utf8.encode t ≠ line) (faulty : Utf8.decode line = .error fault) :
      Gives limit number line (.error (.io (.illFormed fault))) ""

/-- A line that can be read under the limit. -/
def Readable (limit : UInt64) (line : List UInt8) : Prop :=
  (lineContent line).length ≤ limit.toNat ∧ ∃ t, Utf8.encode t = line

/-- What is judged is given. -/
theorem gives_judgeLine (limit : UInt64) (number : Nat) (line : List UInt8) :
    (∃ t, judgeLine limit number line = .ok t ∧ Gives limit number line (.ok true) t) ∨
      ∃ e, judgeLine limit number line = .error e ∧ Gives limit number line (.error e) "" := by
  by_cases long : limit.toNat < (lineContent line).length
  · exact .inr ⟨_, by rw [judgeLine, if_pos long], .tooLong long⟩
  · have short := Nat.le_of_not_lt long
    cases decoded : Utf8.decode line with
    | ok t =>
      exact .inl ⟨t, by rw [judgeLine, if_neg long, decoded],
        .text short (Utf8.encode_of_decode decoded)⟩
    | error fault =>
      refine .inr ⟨_, by rw [judgeLine, if_neg long, decoded], .noText short ?_ decoded⟩
      rintro t rfl
      rw [Utf8.decode_encode] at decoded
      cases decoded

/-- A read gives the line at which it starts. -/
theorem gives_read (small : limit.toNat < UInt64.size - 2) {line : List UInt8}
    {lines : List (List UInt8)} (lines_eq : byteLines r.remaining = line :: lines) :
    Gives limit (r.linesRead + 1) line (r.read limit).1 (r.read limit).2.line ∧
      (r.read limit).2.linesRead = r.linesRead + 1 := by
  have judged := judgeLine_cutLine small lines_eq (r.linesRead + 1)
  cases cut : cutLine (readSpan limit) r.remaining with
  | mk taken rest =>
    cases taken with
    | nil =>
      rw [eq_nil_of_cutLine (readSpan_pos small) cut] at lines_eq
      cases lines_eq
    | cons b taken =>
      rw [cut] at judged
      rw [read_of_cut cut, judged]
      rcases gives_judgeLine limit (r.linesRead + 1) line with ⟨t, ok, gives⟩ | ⟨e, error, gives⟩
      · rw [ok]
        exact ⟨gives, rfl⟩
      · rw [error]
        exact ⟨gives, rfl⟩

/-- The step lemma: behind a line that can be read the reader is at the next one. -/
theorem byteLines_read (small : limit.toNat < UInt64.size - 2) {line : List UInt8}
    {lines : List (List UInt8)} (lines_eq : byteLines r.remaining = line :: lines)
    (readable : Readable limit line) : byteLines (r.read limit).2.remaining = lines := by
  have cut := cutLine_of_short lines_eq (length_le_readSpan small readable.1)
  obtain ⟨b, taken, rfl⟩ := List.exists_cons_of_ne_nil (ne_nil_of_byteLines lines_eq)
  rw [read_of_cut cut]
  cases judgeLine limit (r.linesRead + 1) (b :: taken) <;> exact byteLines_flatten lines_eq

theorem read_of_nil (nothing : r.remaining = []) :
    r.read limit = (.ok false, ⟨[], r.linesRead, ""⟩) :=
  read_of_no_cut (by rw [nothing, cutLine_nil])

/-- The run lemma: behind lines that can be read the reader is at the next one, or at the
end. -/
theorem byteLines_after (small : limit.toNat < UInt64.size - 2) {bytes : List UInt8} {k : Nat}
    (readable : ∀ line ∈ (byteLines bytes).take k, Readable limit line) :
    byteLines (after limit { remaining := bytes } k).remaining = (byteLines bytes).drop k ∧
      (after limit { remaining := bytes } k).linesRead = min k (byteLines bytes).length := by
  induction k with
  | zero => simp [after]
  | succ k ih =>
    obtain ⟨at_, count⟩ := ih fun line mem =>
      readable line (List.take_subset_take_left _ (Nat.le_succ k) mem)
    rw [after]
    by_cases inside : k < (byteLines bytes).length
    · have next := List.drop_eq_getElem_cons inside
      have mem : (byteLines bytes)[k] ∈ (byteLines bytes).take (k + 1) := by
        rw [← List.take_append_getElem inside]
        exact List.mem_append_right _ List.mem_cons_self
      rw [next] at at_
      refine ⟨byteLines_read small at_ (readable _ mem), ?_⟩
      rw [(gives_read small at_).2, count]
      omega
    · have past := Nat.le_of_not_lt inside
      rw [List.drop_eq_nil_of_le past] at at_
      rw [read_of_nil (eq_nil_of_byteLines at_), List.drop_eq_nil_of_le (by omega)]
      refine ⟨rfl, ?_⟩
      rw [show LineReader.linesRead ⟨[], _, ""⟩ = _ from rfl, count]
      omega

/-- A reader gives the lines of its input in order, up to the first one that is too long or no
text.  What it gives for that one is told by its length first.  Behind the last line it gives
that there is none, every time.

Whatever it reads, also behind faults, a read takes a part of what is left, at most two bytes
more than the limit, and stops behind a newline.  The feed of the input is what the reads
give. -/
theorem reads_physical_lines (small : limit.toNat < UInt64.size - 2) (bytes : List UInt8) :
    (∀ k, (∀ line ∈ (byteLines bytes).take k, Readable limit line) →
      (∀ line, (byteLines bytes)[k]? = some line →
        Gives limit (k + 1) line (nth limit bytes k).1 (nth limit bytes k).2.line ∧
          (nth limit bytes k).2.linesRead = k + 1) ∧
      ((byteLines bytes).length ≤ k →
        nth limit bytes k = (.ok false, ⟨[], (byteLines bytes).length, ""⟩))) ∧
    (∀ k, ∃ taken, (after limit { remaining := bytes } k).remaining =
        taken ++ (nth limit bytes k).2.remaining ∧
      (taken = [] → (after limit { remaining := bytes } k).remaining = []) ∧
      taken.length ≤ limit.toNat + 2 ∧ newline ∉ taken.dropLast) ∧
    ∀ k, (Feed.ofBytes limit bytes)[k]? = told (nth limit bytes k) := by
  refine ⟨fun k readable => ?_, fun k => exists_taken small _,
    getElem?_after { remaining := bytes }⟩
  obtain ⟨at_, count⟩ := byteLines_after small readable
  constructor
  · intro line found
    obtain ⟨inside, rfl⟩ := List.getElem?_eq_some_iff.mp found
    rw [List.drop_eq_getElem_cons inside] at at_
    rw [Nat.min_eq_left (Nat.le_of_lt inside)] at count
    have given := gives_read small at_
    rw [count] at given
    exact given
  · intro past
    rw [List.drop_eq_nil_of_le past] at at_
    rw [Nat.min_eq_right past] at count
    rw [nth, read_of_nil (eq_nil_of_byteLines at_), count]

/-- A line with five bytes of content behind one that is read.  The limit is four. -/
theorem reads_physical_lines_of_long :
    Gives 4 2 (Utf8.encode "abcde\n") (nth 4 (Utf8.encode "ab\r\nabcde\nc") 1).1
        (nth 4 (Utf8.encode "ab\r\nabcde\nc") 1).2.line ∧
      (nth 4 (Utf8.encode "ab\r\nabcde\nc") 1).2.linesRead = 2 := by
  have small : (4 : UInt64).toNat < UInt64.size - 2 := by decide
  have reads := reads_physical_lines small (Utf8.encode "ab\r\nabcde\nc")
  refine (reads.1 1 ?_).1 _ (by decide +kernel)
  intro line mem
  have first : line = Utf8.encode "ab\r\n" := by
    simpa using (show line ∈ [Utf8.encode "ab\r\n"] from mem)
  rw [first]
  exact ⟨by decide +kernel, _, rfl⟩

end LineReader

end ImportTidy
