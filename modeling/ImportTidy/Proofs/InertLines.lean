import ImportTidy.Proofs.Concatenation

/-!
# Blank lines and comment lines

A line of blanks and comments does nothing, wherever it is put between two lines of a source.
The same groups are gathered, and a fault is the same, but for the numbers of the lines behind it
(`Session.runBytes_insert`).

The two sources have the same lines in front.  A reader goes through them alike, up to the first
one that cannot be read, if there is one (`TokenStream.Padded.lines_append`).  The inert line gives
one token, which is a break (`Inert.tokens`), and it stands behind a break.  So the streams of the
two sources differ by this break and by the numbers of the lines behind it.
-/

namespace ImportTidy

/-! ## Inert lines -/

/-- A line of blanks, or of blanks and a comment. -/
inductive Inert : String → Prop where
  | blank {b : String} (blank : ∀ c ∈ b.toList, isBlank c = true) : Inert b
  | comment {b t : String} (blank : ∀ c ∈ b.toList, isBlank c = true) (oneLine : OneLine t) :
      Inert (b ++ "#" ++ t)

theorem oneLine_of_blank {b : String} (blank : ∀ c ∈ b.toList, isBlank c = true) : OneLine b := by
  intro newline
  exact absurd (blank '\n' newline) (by decide)

theorem Inert.oneLine {l : String} (inert : Inert l) : OneLine l := by
  cases inert with
  | blank blank => exact oneLine_of_blank blank
  | @comment b t blank oneLine =>
    have noNewline := oneLine_of_blank blank
    rw [OneLine] at noNewline oneLine ⊢
    simp [noNewline, oneLine]

/-- An inert line is one break. -/
theorem Inert.tokens {l : String} (inert : Inert l) (n : Nat) :
    ∃ t, Token.ofLine n (l ++ "\n") = [t] ∧ t.kind.isBreak = true := by
  cases inert with
  | blank blank =>
    obtain ⟨ts, col, words, -, same⟩ := Lexes.ofBlanks blank n 0
    obtain rfl : ts = [] := List.map_eq_nil_iff.mp words
    refine ⟨⟨.lineBreak, "\n", n, col, 1⟩, ?_, rfl⟩
    rw [Token.ofLine, String.toList_append]
    exact same
  | @comment b t blank oneLine =>
    obtain ⟨ts, col, words, -, same⟩ := Lexes.ofBlanks blank n 0
    obtain rfl : ts = [] := List.map_eq_nil_iff.mp words
    refine ⟨⟨.comment, "#", n, col, 1 + leadingBlanks (t.toList ++ ['\n'])⟩, ?_, rfl⟩
    have chars : (b ++ "#" ++ t ++ "\n").toList =
        b.toList ++ '#' :: (t.toList ++ ['\n']) := by
      simp
    rw [Token.ofLine, chars]
    exact same

/-! ## Lines in front -/

namespace TokenStream.Padded

variable {f : Nat → Nat} {fresh : Bool} {limit : UInt64}

/-- Inputs with the same lines in front.  Up to the first line that cannot be read they have the
same tokens, whose lines keep their numbers. -/
theorem lines_append (small : limit.toNat < UInt64.size - 2) {ls : List String}
    (oneLine : ∀ l ∈ ls, OneLine l) (apart : ∀ l ∈ ls.getLast?, joinsNext l.toList = false)
    (atStart : ls = [] → fresh = true) {n : Nat} (kept : ∀ i ≤ n + ls.length, f i = i)
    {bytes bytes' : List UInt8}
    (rest : Padded f true (.after (n + ls.length) (Feed.after limit (n + ls.length) bytes))
      (.after (n + ls.length) (Feed.after limit (n + ls.length) bytes'))) :
    Padded f fresh
      (.after n (Feed.after limit n (Utf8.encode (unlines ls) ++ bytes)))
      (.after n (Feed.after limit n (Utf8.encode (unlines ls) ++ bytes'))) := by
  induction ls generalizing n fresh with
  | nil =>
    obtain rfl := atStart rfl
    exact rest
  | cons l ls ih =>
    obtain ⟨first, others⟩ := List.forall_mem_cons.mp oneLine
    rw [List.length_cons, ← Nat.add_assoc, Nat.add_right_comm] at kept rest
    have noNewline := newline_not_mem_encode first
    obtain ⟨more, reads, next⟩ := Feed.after_first small noNewline n
      (Utf8.encode (unlines ls) ++ bytes)
    obtain ⟨more', reads', next'⟩ := Feed.after_first small noNewline n
      (Utf8.encode (unlines ls) ++ bytes')
    have line : f (n + 1) = n + 1 := kept _ (Nat.le_add_right _ _)
    rw [encode_unlines_cons, List.append_assoc, List.append_assoc, List.cons_append,
      List.cons_append, reads, reads']
    cases judged : judgeLine limit (n + 1) (Utf8.encode l ++ [newline]) with
    | error e =>
      have same := judgeLine_renumber f limit (n + 1) (Utf8.encode l ++ [newline])
      rw [line, judged] at same
      have failed : Padded f fresh (.failed n e (.after n more))
          (.failed n (e.renumber f) (.after n more')) := .failed e
      rwa [← Except.error.inj same] at failed
    | ok text =>
      have decoded := decode_of_judgeLine judged
      rw [decode_line] at decoded
      obtain rfl : l ++ "\n" = text := Except.ok.inj decoded
      have tokens := lineTokens_renumber f (n + 1) none 0 (l ++ "\n").toList
      rw [line] at tokens
      have behind : ls = [] →
          breakBehind fresh (Token.ofLine (n + 1) (l ++ "\n")) = true := by
        rintro rfl
        obtain ⟨front, t, ends, isBreak⟩ := ends_lineTokens first (apart l rfl) (n + 1) none 0
        rw [Token.ofLine, String.toList_append]
        change breakBehind fresh (lineTokens (n + 1) none 0 (l.toList ++ ['\n'])) = true
        rw [ends, breakBehind_concat, isBreak]
      have apart' : ∀ l ∈ ls.getLast?, joinsNext l.toList = false := by
        intro l' last
        cases ls with
        | nil => cases last
        | cons l₂ ls => exact apart l' (by rwa [List.getLast?_cons_cons])
      have lines := ofTokens (Token.ofLine (n + 1) (l ++ "\n")) (ih others apart' behind kept rest)
      rw [next _ judged, next' _ judged]
      rwa [Token.ofLine, ← tokens] at lines

end TokenStream.Padded

/-! ## Insertion -/

/-- Where a line stands when one more stands behind line `a`. -/
def movedBehind (a line : Nat) : Nat := if line ≤ a then line else line + 1

/-- The streams of a source without an inert line and with it. -/
theorem TokenStream.padded_insert {limit : UInt64} (small : limit.toNat < UInt64.size - 2)
    {ls : List String} (oneLine : ∀ l ∈ ls, OneLine l)
    (apart : ∀ l ∈ ls.getLast?, joinsNext l.toList = false) {l : String} (inert : Inert l)
    (short : (lineContent (Utf8.encode (l ++ "\n"))).length ≤ limit.toNat) (bytes : List UInt8) :
    Padded (movedBehind ls.length) true
      (.ofFeed (.ofBytes limit (Utf8.encode (unlines ls) ++ bytes)))
      (.ofFeed (.ofBytes limit (Utf8.encode (unlines ls) ++
        (Utf8.encode (l ++ "\n") ++ bytes)))) := by
  have kept : ∀ i ≤ 0 + ls.length, movedBehind ls.length i = i := by
    intro i le
    rw [Nat.zero_add] at le
    exact if_pos le
  have moved : ∀ i, movedBehind ls.length (0 + ls.length + 1 + i) = 0 + ls.length + 1 + 1 + i := by
    intro i
    rw [movedBehind, if_neg (by omega)]
    omega
  obtain ⟨t, tokens, isBreak⟩ := inert.tokens (0 + ls.length + 1)
  have judged : judgeLine limit (0 + ls.length + 1) (Utf8.encode l ++ [newline]) =
      .ok (l ++ "\n") := by
    rw [encode_line] at short
    rw [judgeLine, if_neg (Nat.not_lt.mpr short), decode_line]
  obtain ⟨more, reads, next⟩ := Feed.after_first small (newline_not_mem_encode inert.oneLine)
    (0 + ls.length) bytes
  refine .lines_append small oneLine apart (fun _ => rfl) kept ?_
  rw [encode_line, List.append_assoc, List.singleton_append, reads, judged, next _ judged]
  show Padded _ true _ (.ofTokens (Token.ofLine (0 + ls.length + 1) (l ++ "\n")) _)
  rw [tokens]
  exact .pad isBreak (.after limit moved bytes)

/-- A blank line or a comment line does nothing between two lines of a source, also in
parentheses.  The same is gathered, and the same fault is met.  What stands behind the line is
one line further down. -/
theorem Session.runBytes_insert (settings : SortSettings)
    (small : settings.maxLineLength.toNat < UInt64.size - 2) {front l : String}
    (whole : WholeLines front) (inert : Inert l)
    (short : (lineContent (Utf8.encode (l ++ "\n"))).length ≤ settings.maxLineLength.toNat)
    (behind : String) :
    let without := Session.runBytes settings {} (Utf8.encode (front ++ behind))
    let inserted := Session.runBytes settings {} (Utf8.encode (front ++ (l ++ "\n") ++ behind))
    let move := movedBehind (front.toList.count '\n')
    (inserted.2 = none ↔ without.2 = none) ∧
    inserted.1.arena = without.1.arena ∧
    inserted.1.groups = without.1.groups.map (fun g => { g with line := move g.line }) ∧
    inserted.2 = without.2.map (SyntaxFault.renumber move) := by
  intro without inserted move
  obtain ⟨ls, rfl, oneLine, apart, count⟩ := whole.exists_lines
  have padded := TokenStream.padded_insert small oneLine apart inert short (Utf8.encode behind)
  rw [← count, ← Utf8.encode_append, ← Utf8.encode_append, ← Utf8.encode_append,
    ← String.append_assoc] at padded
  have script : Script.ofFeed (.ofBytes settings.maxLineLength
        (Utf8.encode (unlines ls ++ (l ++ "\n") ++ behind))) =
      (Script.ofFeed (.ofBytes settings.maxLineLength
        (Utf8.encode (unlines ls ++ behind)))).renumber move :=
    padded.read (p := .start) fun _ => rfl
  have both : inserted =
      (without.1.renumberFrom move 0, without.2.map (SyntaxFault.renumber move)) := by
    calc inserted
      _ = Session.follow settings.squash {} (Script.ofFeed (.ofBytes settings.maxLineLength
            (Utf8.encode (unlines ls ++ (l ++ "\n") ++ behind)))) := rfl
      _ = _ := by
        rw [script]
        exact follow_renumberFrom (s := {}) move settings.squash (Nat.zero_le _) _
  rw [both]
  refine ⟨Option.map_eq_none_iff, rfl, ?_, rfl⟩
  exact Groups.renumberFrom_zero move without.1.groups

/-- A comment in the middle of a list, between `as` and its name.  The group of the list was there
before, and another group and the fault stand behind the comment. -/
theorem Session.runBytes_insert_in_parentheses :
    let names := ((({} : Arena).alloc "m").alloc "a as c").alloc "d"
    let inserted := Session.runBytes {} {} (Utf8.encode ("from m import (a as\n" ++
      ("\t# import b \\" ++ "\n") ++ "c)\nimport d\nimport e as\n"))
    Session.runBytes {} {}
        (Utf8.encode ("from m import (a as\n" ++ "c)\nimport d\nimport e as\n")) =
      (⟨names, [⟨.source 0, [1], 1⟩, ⟨.plain, [2], 3⟩]⟩,
        some (.unexpected 4 11 .asName .lineBreak)) ∧
      inserted.1.arena = names ∧ inserted.1.groups = [⟨.source 0, [1], 1⟩, ⟨.plain, [2], 4⟩] ∧
      inserted.2 = some (.unexpected 5 11 .asName .lineBreak) := by
  intro names inserted
  have whole : WholeLines "from m import (a as\n" := ⟨by decide +kernel, by decide +kernel⟩
  have inert : Inert "\t# import b \\" :=
    .comment (b := "\t") (by simp [isBlank]) (t := " import b \\") (by simp [OneLine])
  have run : Session.runBytes {} {}
      (Utf8.encode ("from m import (a as\n" ++ "c)\nimport d\nimport e as\n")) =
        (⟨names, [⟨.source 0, [1], 1⟩, ⟨.plain, [2], 3⟩]⟩,
          some (.unexpected 4 11 .asName .lineBreak)) := by
    decide +kernel
  obtain ⟨-, arena, groups, fault⟩ := Session.runBytes_insert {} (by decide) whole inert
    (by decide +kernel) "c)\nimport d\nimport e as\n"
  rw [run] at arena groups fault
  exact ⟨run, arena, groups, fault⟩

end ImportTidy
