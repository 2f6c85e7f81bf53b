import ImportTidy.Proofs.ByteClasses
import ImportTidy.Proofs.Concatenation

/-!
# Lines that end in `CR LF`

A source is read alike whether its lines end in `LF` or in `CR LF`.  The same groups are
gathered under the same handles, and a fault is the same, but for the column of the end of a
line (`Session.runBytes_withReturns`).

The `CR` is met in three places.

* The length of a line is that of its content, and the content has neither ending
  (`judgeLine_return`).
* Behind a backslash a `CR` is a blank, so the same lines are joined.
* A `CR` ends a word as the newline does, and then it is a blank.  So the tokens of the line
  are the same, and only the line break stands one byte further right
  (`displaced_lineTokens`).

`TokenStream.Displaced n` relates streams whose tokens differ so on the first `n` lines.  What
stands behind the last newline is the same in both sources.
-/

namespace ImportTidy

/-- The text with `CR LF` in place of each newline. -/
def withReturns (text : String) : String :=
  .ofList (text.toList.flatMap fun c => if c = '\n' then ['\r', '\n'] else [c])

/-! ## Faults and scripts -/

/-- The fault with a line break one byte further right, if it is on one of the first `n`
lines. -/
def SyntaxFault.displace (n : Nat) : SyntaxFault → SyntaxFault
  | .unexpected line column expected found =>
      .unexpected line (if found = .lineBreak ∧ line ≤ n then column + 1 else column) expected found
  | .unread e => .unread e

/-- A fault stays as it is, unless it is a line break. -/
theorem SyntaxFault.displace_cases (n : Nat) (fault : SyntaxFault) :
    fault.displace n = fault ∨
      ∃ line column expected, fault = .unexpected line column expected .lineBreak ∧
        fault.displace n = .unexpected line (column + 1) expected .lineBreak := by
  cases fault with
  | unread e => exact .inl rfl
  | unexpected line column expected found =>
    rw [displace]
    split
    next moved =>
      obtain ⟨rfl, -⟩ := moved
      exact .inr ⟨line, column, expected, rfl, rfl⟩
    next => exact .inl rfl

/-- The script with its fault displaced. -/
def Script.displace (n : Nat) (script : Script) : Script :=
  { script with
    ending := match script.ending with
      | .complete => .complete
      | .broken settled fault => .broken settled (fault.displace n) }

theorem Session.follow_displace (n : Nat) (squash : Bool) (s : Session) (script : Script) :
    s.follow squash (script.displace n) =
      ((s.follow squash script).1, (s.follow squash script).2.map (SyntaxFault.displace n)) := by
  obtain ⟨statements, ending⟩ := script
  cases ending with
  | complete => rfl
  | broken settled fault => cases settled <;> rfl

/-! ## Tokens and streams -/

/-- The same token, a line break on one of the first `n` lines one byte further right. -/
structure Token.Displaced (n : Nat) (t t' : Token) : Prop where
  kind : t'.kind = t.kind
  text : t'.text = t.text
  line : t'.line = t.line
  column : t'.column = if t.kind = .lineBreak ∧ t.line ≤ n then t.column + 1 else t.column

namespace Token.Displaced

variable {n : Nat} {t t' : Token}

theorem step_eq (h : Displaced n t t') (p : Phase) : p.step t' = p.step t := by
  simp only [Phase.step, h.kind, h.text, h.line]

theorem refused (h : Displaced n t t') (expected : Expectation) :
    t'.refused expected = (t.refused expected).displace n := by
  rw [Token.refused, h.kind, h.line, h.column]
  rfl

/-- Behind the first lines nothing is displaced. -/
theorem refl_of_lt (behind : n < t.line) : Displaced n t t where
  kind := rfl
  text := rfl
  line := rfl
  column := by rw [if_neg fun moved => Nat.not_le_of_lt behind moved.2]

/-- A token that is no line break stays where it is. -/
theorem of_ne (noBreak : t.kind ≠ .lineBreak) (stride : Nat) :
    Displaced n t { t with stride := stride } where
  kind := rfl
  text := rfl
  line := rfl
  column := by rw [if_neg fun moved => noBreak moved.1]

end Token.Displaced

/-- The same stream with displaced tokens.  A failed read is the end of what a reader looks
at. -/
inductive TokenStream.Displaced (n : Nat) : TokenStream → TokenStream → Prop where
  | finish (line : Nat) : Displaced n (.finish line) (.finish line)
  | token {t t' : Token} {ts ts' : TokenStream} (first : Token.Displaced n t t')
      (rest : Displaced n ts ts') : Displaced n (.token t ts) (.token t' ts')
  | failed (k : Nat) (e : ReadError) {ts ts' : TokenStream} :
      Displaced n (.failed k e ts) (.failed k e ts')

namespace TokenStream.Displaced

variable {n : Nat} {ts ts' : TokenStream}

/-- The scripts differ in the column of a fault only. -/
theorem read (h : Displaced n ts ts') (p : Phase) :
    Script.read p ts' = (Script.read p ts).displace n := by
  induction h generalizing p with
  | finish line =>
    rw [Script.read]
    cases p.step (.finish line) with
    | go q => rfl
    | complete st q => rfl
    | refuse expected =>
      have last : (Token.finish line).Displaced n (.finish line) :=
        .of_ne (by simp [Token.finish]) 0
      exact congrArg (Script.broken p) (last.refused expected)
  | token first _ ih =>
    rw [Script.read, Script.read, first.step_eq]
    cases p.step _ with
    | go q => exact ih q
    | complete st q => exact congrArg (Script.cons st) (ih q)
    | refuse expected => exact congrArg (Script.broken p) (first.refused expected)
  | failed k e => rfl

theorem ofTokens {front front' : List Token}
    (tokens : List.Forall₂ (Token.Displaced n) front front')
    (rest : Displaced n ts ts') : Displaced n (.ofTokens front ts) (.ofTokens front' ts') := by
  induction tokens with
  | nil => exact rest
  | cons first _ ih => exact .token first ih

/-- Behind the first lines the streams are the same. -/
theorem refl_after {m : Nat} (le : n ≤ m) (feed : Feed) :
    Displaced n (.after m feed) (.after m feed) := by
  induction feed generalizing m with
  | nil => exact .finish _
  | cons read feed ih =>
    cases read with
    | error e => exact .failed m e
    | ok text =>
      refine ofTokens (List.forall₂_same.mpr fun t mem => .refl_of_lt ?_)
        (ih (Nat.le_succ_of_le le))
      rw [((tiled_ofLine (m + 1) text).text mem).1]
      exact Nat.lt_succ_of_le le

end TokenStream.Displaced

/-! ## The tokens of a line -/

theorem joinsLines_return (cs : List Char) :
    joinsLines (cs ++ ['\r', '\n']) = joinsLines (cs ++ ['\n']) := by
  simp [joinsLines, isBlank]

theorem displaced_close (n : Nat) (word : Option PartialWord) (line : Nat)
    (behind behind' : List Char) :
    List.Forall₂ (Token.Displaced n) (PartialWord.close word line behind)
      (PartialWord.close word line behind') := by
  cases word with
  | none => exact .nil
  | some w =>
    refine .cons (.of_ne ?_ _) .nil
    show wordKind _ ≠ _
    simp only [wordKind]
    split_ifs <;> decide

/-- A `CR` in front of the newline leaves all other tokens of the line where they are. -/
theorem displaced_lineTokens {n line : Nat} (le : line ≤ n) {cs : List Char} (oneLine : '\n' ∉ cs)
    (word : Option PartialWord) (column : Nat) :
    List.Forall₂ (Token.Displaced n) (lineTokens line word column (cs ++ ['\n']))
      (lineTokens line word column (cs ++ ['\r', '\n'])) := by
  induction cs generalizing word column with
  | nil =>
    refine List.rel_append (displaced_close n word line _ _) (.cons ?_ .nil)
    exact ⟨rfl, rfl, rfl, (if_pos ⟨rfl, le⟩).symm⟩
  | cons c cs ih =>
    obtain ⟨first, others⟩ := not_or.mp (mt List.mem_cons.mpr oneLine)
    have inside : inWord c (cs ++ ['\r', '\n']) = inWord c (cs ++ ['\n']) := by
      rw [inWord, inWord, joinsLines_return]
    rw [List.cons_append, List.cons_append, lineTokens, lineTokens, inside]
    split
    next => exact ih others _ _
    next =>
      refine List.rel_append (displaced_close n word line _ _) ?_
      split
      next => exact ih others none _
      next =>
        split
        next newline => exact absurd newline.symm first
        next =>
          split
          next => exact .cons (.of_ne (by simp) _) .nil
          next =>
            split
            next => exact .nil
            next =>
              refine .cons (.of_ne ?_ _) (ih others none _)
              show (if c = ',' then TokenKind.comma else _) ≠ .lineBreak
              split_ifs <;> decide

/-! ## Reads -/

/-- The content of a line has no `CR LF` at its end. -/
theorem lineContent_return (line : List UInt8) :
    lineContent (line ++ [carriageReturn] ++ [newline]) = line := by
  simp [lineContent]

theorem lineContent_newline {line : List UInt8} (noReturn : carriageReturn ∉ line) :
    lineContent (line ++ [newline]) = line := by
  rcases line.eq_nil_or_concat with rfl | ⟨front, b, rfl⟩
  · rfl
  · have other : b ≠ carriageReturn := fun same => noReturn (by simp [same])
    simp [lineContent, other]

/-- A read fails for both endings of a line or for neither, and it fails alike. -/
theorem judgeLine_return (limit : UInt64) (number : Nat) {l : String} (noReturn : '\r' ∉ l.toList) :
    (∃ e, judgeLine limit number (Utf8.encode l ++ [newline]) = .error e ∧
      judgeLine limit number (Utf8.encode (l ++ "\r") ++ [newline]) = .error e) ∨
    judgeLine limit number (Utf8.encode l ++ [newline]) = .ok (l ++ "\n") ∧
      judgeLine limit number (Utf8.encode (l ++ "\r") ++ [newline]) = .ok (l ++ "\r" ++ "\n") := by
  have absent : carriageReturn ∉ Utf8.encode l := by
    have bytes := mt (toUInt8_mem_bytesOf (d := '\r') (by decide)).mp noReturn
    rwa [bytesOf, String.ofList_toList] at bytes
  have content := lineContent_newline absent
  have content' : lineContent (Utf8.encode (l ++ "\r") ++ [newline]) = Utf8.encode l := by
    rw [Utf8.encode_append]
    exact lineContent_return _
  rw [judgeLine, judgeLine, content, content', decode_line, decode_line]
  by_cases long : (Utf8.encode l).length > limit.toNat
  · rw [if_pos long, if_pos long]
    exact .inl ⟨_, rfl, rfl⟩
  · rw [if_neg long, if_neg long]
    exact .inr ⟨rfl, rfl⟩

/-! ## Sources -/

theorem withReturns_unlines {ls : List String} (oneLine : ∀ l ∈ ls, OneLine l) {last : String}
    (lastLine : OneLine last) :
    withReturns (unlines ls ++ last) = unlines (ls.map (· ++ "\r")) ++ last := by
  have kept : ∀ {l : String}, OneLine l →
      (l.toList.flatMap fun c => if c = '\n' then ['\r', '\n'] else [c]) = l.toList := by
    intro l oneLine
    have single : ∀ c ∈ l.toList, (if c = '\n' then ['\r', '\n'] else [c]) = [c] := by
      intro c mem
      refine if_neg ?_
      rintro rfl
      exact oneLine mem
    rw [List.flatMap_congr single, List.flatMap_singleton']
  refine String.toList_inj.mp ?_
  rw [withReturns, String.toList_ofList]
  induction ls with
  | nil => simpa [unlines_nil] using kept lastLine
  | cons l ls ih =>
    obtain ⟨first, others⟩ := List.forall_mem_cons.mp oneLine
    have rest := ih others
    simp only [String.toList_append, List.flatMap_append] at rest
    simp [unlines_cons, kept first, rest]

/-- A text is lines with something behind the last newline. -/
theorem exists_unlines_append (text : String) :
    ∃ ls last, (∀ l ∈ ls, OneLine l) ∧ OneLine last ∧ text = unlines ls ++ last := by
  obtain ⟨ls, oneLine, joined⟩ :=
    @exists_unlines (text.toList ++ ['\n']) (.inr (List.getLast?_concat ..))
  have whole : unlines ls = text ++ "\n" := by
    rw [joined, String.ofList_append, String.ofList_toList]
  rcases ls.eq_nil_or_concat' with rfl | ⟨front, last, rfl⟩
  · have chars := congrArg String.toList whole
    simp [unlines_nil] at chars
  · obtain ⟨lines, lastLine⟩ := List.forall_mem_append.mp oneLine
    refine ⟨front, last, lines, lastLine last (by simp), ?_⟩
    rw [unlines_append, unlines_cons, unlines_nil, String.append_empty, ← String.append_assoc]
      at whole
    exact (String.append_left_inj "\n").mp whole.symm

/-- The streams of lines with both endings. -/
theorem TokenStream.displaced_unlines {limit : UInt64} (small : limit.toNat < UInt64.size - 2)
    {ls : List String} (oneLine : ∀ l ∈ ls, OneLine l) (noReturn : ∀ l ∈ ls, '\r' ∉ l.toList)
    {n total : Nat} (count : n + ls.length = total) (bytes : List UInt8) :
    Displaced total
      (.after n (Feed.after limit n (Utf8.encode (unlines ls) ++ bytes)))
      (.after n (Feed.after limit n (Utf8.encode (unlines (ls.map (· ++ "\r"))) ++ bytes))) := by
  induction ls generalizing n with
  | nil =>
    rw [List.length_nil, Nat.add_zero] at count
    exact .refl_after (Nat.le_of_eq count.symm) _
  | cons l ls ih =>
    obtain ⟨first, others⟩ := List.forall_mem_cons.mp oneLine
    obtain ⟨firstReturn, otherReturns⟩ := List.forall_mem_cons.mp noReturn
    have first' : OneLine (l ++ "\r") := by
      rw [OneLine] at first ⊢
      simpa using first
    rw [List.length_cons, Nat.add_comm ls.length, ← Nat.add_assoc] at count
    obtain ⟨more, reads, next⟩ := Feed.after_first small (newline_not_mem_encode first) n
      (Utf8.encode (unlines ls) ++ bytes)
    obtain ⟨more', reads', next'⟩ := Feed.after_first small (newline_not_mem_encode first') n
      (Utf8.encode (unlines (ls.map (· ++ "\r"))) ++ bytes)
    rw [List.map_cons, encode_unlines_cons, encode_unlines_cons, List.append_assoc,
      List.append_assoc, List.cons_append, List.cons_append, reads, reads']
    rcases judgeLine_return limit (n + 1) firstReturn with ⟨e, judged, judged'⟩ | ⟨judged, judged'⟩
    · rw [judged, judged']
      exact .failed n e
    · rw [judged, judged', next _ judged, next' _ judged']
      refine .ofTokens ?_ (ih others otherReturns count)
      have numbered : n + 1 ≤ total := count ▸ Nat.le_add_right _ _
      have tokens := displaced_lineTokens numbered first none 0
      simpa [Token.ofLine] using tokens

/-- Sources whose lines end in `LF` and in `CR LF` are read alike.  The sessions are the same,
and so is what they render.  The same fault is met, but a line break that is a fault stands one
byte further right where its line ends in `CR LF`. -/
theorem Session.runBytes_withReturns (settings : SortSettings)
    (small : settings.maxLineLength.toNat < UInt64.size - 2) {text : String}
    (noReturn : '\r' ∉ text.toList) :
    let plain := Session.runBytes settings {} (Utf8.encode text)
    let returned := Session.runBytes settings {} (Utf8.encode (withReturns text))
    returned.1 = plain.1 ∧
    returned.1.render settings.wrap = plain.1.render settings.wrap ∧
    (returned.2 = none ↔ plain.2 = none) ∧
    returned.2 = plain.2.map (SyntaxFault.displace (text.toList.count '\n')) ∧
    ∀ fault ∈ plain.2, returned.2 = some fault ∨
      ∃ line column expected, fault = .unexpected line column expected .lineBreak ∧
        returned.2 = some (.unexpected line (column + 1) expected .lineBreak) := by
  intro plain returned
  obtain ⟨ls, last, oneLine, lastLine, rfl⟩ := exists_unlines_append text
  have noReturns : ∀ l ∈ ls, '\r' ∉ l.toList := by
    intro l mem inside
    refine noReturn ?_
    obtain ⟨front, behind, rfl⟩ := List.append_of_mem mem
    simp [unlines_append, unlines_cons, inside]
  have count : (unlines ls ++ last).toList.count '\n' = ls.length := by
    rw [String.toList_append, List.count_append, count_unlines oneLine,
      List.count_eq_zero.mpr lastLine, Nat.add_zero]
  have displaced := TokenStream.displaced_unlines small oneLine noReturns (Nat.zero_add _)
    (Utf8.encode last)
  rw [← Utf8.encode_append, ← Utf8.encode_append, ← withReturns_unlines oneLine lastLine,
    ← count] at displaced
  have script : Script.ofFeed (.ofBytes settings.maxLineLength
        (Utf8.encode (withReturns (unlines ls ++ last)))) =
      (Script.ofFeed (.ofBytes settings.maxLineLength
        (Utf8.encode (unlines ls ++ last)))).displace ((unlines ls ++ last).toList.count '\n') :=
    displaced.read .start
  have both : returned =
      (plain.1, plain.2.map (SyntaxFault.displace ((unlines ls ++ last).toList.count '\n'))) := by
    calc returned
      _ = Session.follow settings.squash {} (Script.ofFeed (.ofBytes settings.maxLineLength
            (Utf8.encode (withReturns (unlines ls ++ last))))) := rfl
      _ = _ := by
        rw [script]
        exact Session.follow_displace _ _ _ _
  rw [both]
  refine ⟨rfl, rfl, Option.map_eq_none_iff, rfl, fun fault isFault => ?_⟩
  rw [show plain.2 = some fault from isFault, Option.map_some]
  rcases fault.displace_cases ((unlines ls ++ last).toList.count '\n') with
    same | ⟨line, column, expected, isBreak, moved⟩
  · exact .inl (congrArg some same)
  · exact .inr ⟨line, column, expected, isBreak, congrArg some moved⟩

/-- A first line that is as long as the limit allows, and a line break that is a fault.  The
limit is 17 bytes. -/
theorem Session.runBytes_withReturns_at_limit :
    let settings : SortSettings := { maxLineLength := 17 }
    let text := "from m import (b,\n \\\na)\nimport x as\n"
    let returned := Session.runBytes settings {} (Utf8.encode (withReturns text))
    withReturns text = "from m import (b,\r\n \\\r\na)\r\nimport x as\r\n" ∧
      returned.1 = ⟨((({} : Arena).alloc "m").alloc "b").alloc "a", [⟨.source 0, [1, 2], 1⟩]⟩ ∧
      returned.1.render settings.wrap = "from m import a, b\n" ∧
      returned.2 = some (.unexpected 4 12 .asName .lineBreak) := by
  intro settings text returned
  let session : Session :=
    ⟨((({} : Arena).alloc "m").alloc "b").alloc "a", [⟨.source 0, [1, 2], 1⟩]⟩
  have run : Session.runBytes settings {} (Utf8.encode text) =
      (session, some (.unexpected 4 11 .asName .lineBreak)) := by
    decide +kernel
  have shown : session.Shows [⟨.source "m", ["b", "a"], 1⟩] :=
    .cons ⟨by decide +kernel, by decide +kernel, rfl⟩ .nil
  have sorted : NaturalOrder.sort ["b", "a"] = ["a", "b"] :=
    NaturalOrder.sort_eq (by decide) (by decide +kernel)
  obtain ⟨same, rendered, -, fault, -⟩ := @Session.runBytes_withReturns settings (by decide)
    text (by decide +kernel)
  rw [run] at same rendered fault
  refine ⟨by decide +kernel, same, rendered.trans ?_, fault.trans (by decide +kernel)⟩
  rw [shown.render]
  simp only [renderBlocks, List.map_cons, List.map_nil, Block.render, sorted]
  decide +kernel

end ImportTidy
