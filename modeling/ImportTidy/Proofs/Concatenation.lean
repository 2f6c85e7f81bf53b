import Mathlib.Data.List.TakeWhile
import ImportTidy.Proofs.LineReader
import ImportTidy.Proofs.Padding
import ImportTidy.Proofs.Rereading

/-!
# One source behind another

A session that reads a source and then another one has read the two as one source, but for
the lines of the second one.  They are counted on behind those of the first
(`Session.runBytes_append`).

The cut between the two has to be the end of a line that is not joined to the next one
(`WholeLines`).  Then three things hold there.

* The reads of the first source end with their lines, so the reads of the second one start
  where they do without the first (`Feed.after_unlines_append`).
* The last token of the first source is a break (`ends_lineTokens`).
* Behind a break a reader is outside statements, where a statement may start, or it is in
  parentheses (`Phase.rests_of_go`).  In parentheses the first source would be faulty at its end.

So the reader is where it starts (`read_append`), and the rest is moving down: the lines of the
second source are renumbered by `(· + k)`, where `k` is the number of lines in front
(`Script.read_after`).
-/

namespace ImportTidy

/-! ## Whole lines -/

/-- The line is joined to the one behind it: it has no comment and ends in a backslash, blanks
aside. -/
def joinsNext (cs : List Char) : Bool :=
  !cs.contains '#' && (cs.reverse.dropWhile isBlank).head? = some '\\'

/-- The text is empty, or ends in a newline with which its last line ends. -/
structure WholeLines (text : String) : Prop where
  ends : text = "" ∨ text.toList.getLast? = some '\n'
  apart : ∀ l ∈ (linesOf text).dropLast.getLast?, joinsNext l.toList = false

/-- A text that ends in a newline is made of lines. -/
theorem exists_unlines {cs : List Char} (ends : cs = [] ∨ cs.getLast? = some '\n') :
    ∃ ls, (∀ l ∈ ls, OneLine l) ∧ unlines ls = String.ofList cs := by
  induction cs with
  | nil => exact ⟨[], nofun, rfl⟩
  | cons c cs ih =>
    have last : (c :: cs).getLast? = some '\n' := ends.resolve_left (List.cons_ne_nil _ _)
    have rest : cs = [] ∨ cs.getLast? = some '\n' := by
      cases cs with
      | nil => exact .inl rfl
      | cons d cs =>
        rw [List.getLast?_cons_cons] at last
        exact .inr last
    obtain ⟨ls, oneLine, joined⟩ := ih rest
    by_cases newline : c = '\n'
    · subst newline
      refine ⟨"" :: ls, List.forall_mem_cons.mpr ⟨by simp [OneLine], oneLine⟩, ?_⟩
      rw [unlines_cons, joined, String.ofList_cons]
      rfl
    · cases ls with
      | nil =>
        have none : cs = [] := by simpa [unlines_nil] using congrArg String.toList joined.symm
        rw [none] at last
        exact absurd (Option.some.inj last) newline
      | cons l ls =>
        obtain ⟨first, others⟩ := List.forall_mem_cons.mp oneLine
        refine ⟨(String.singleton c ++ l) :: ls, List.forall_mem_cons.mpr ⟨?_, others⟩, ?_⟩
        · simpa [OneLine, Ne.symm newline] using first
        · have front : unlines ((String.singleton c ++ l) :: ls) =
              String.singleton c ++ unlines (l :: ls) := by
            rw [unlines_cons, unlines_cons, String.append_assoc, String.append_assoc,
              String.append_assoc]
          rw [front, joined, String.ofList_cons]

theorem count_unlines {ls : List String} (oneLine : ∀ l ∈ ls, OneLine l) :
    (unlines ls).toList.count '\n' = ls.length := by
  induction ls with
  | nil => rfl
  | cons l ls ih =>
    obtain ⟨first, others⟩ := List.forall_mem_cons.mp oneLine
    have none : l.toList.count '\n' = 0 := List.count_eq_zero.mpr first
    rw [unlines_cons, String.toList_append, String.toList_append, List.count_append,
      List.count_append, none, ih others, List.length_cons]
    simp [Nat.add_comm]

/-- A text of whole lines, as its lines. -/
theorem WholeLines.exists_lines {text : String} (h : WholeLines text) :
    ∃ ls, text = unlines ls ∧ (∀ l ∈ ls, OneLine l) ∧
      (∀ l ∈ ls.getLast?, joinsNext l.toList = false) ∧ text.toList.count '\n' = ls.length := by
  have ends : text.toList = [] ∨ text.toList.getLast? = some '\n' :=
    h.ends.imp_left fun empty => by rw [empty]; rfl
  obtain ⟨ls, oneLine, joined⟩ := exists_unlines ends
  rw [String.ofList_toList] at joined
  subst joined
  have apart := h.apart
  rw [linesOf_unlines oneLine, List.dropLast_concat] at apart
  exact ⟨ls, rfl, oneLine, apart, count_unlines oneLine⟩

/-! ## Feeds -/

/-- Lines that are read are read alike in front of more bytes, which are read on their own. -/
theorem Feed.after_unlines_append {limit : UInt64} (small : limit.toNat < UInt64.size - 2)
    {ls : List String} (oneLine : ∀ l ∈ ls, OneLine l) {n : Nat}
    (ok : ∀ r ∈ Feed.after limit n (Utf8.encode (unlines ls)), ∃ text, r = .ok text)
    (bytes : List UInt8) :
    Feed.after limit n (Utf8.encode (unlines ls) ++ bytes) =
      (ls.map fun l => .ok (l ++ "\n")) ++ Feed.after limit (n + ls.length) bytes := by
  induction ls generalizing n with
  | nil => rfl
  | cons l ls ih =>
    obtain ⟨first, others⟩ := List.forall_mem_cons.mp oneLine
    rw [encode_unlines_cons] at ok ⊢
    have noNewline := newline_not_mem_encode first
    obtain ⟨more, reads, next⟩ := Feed.after_first small noNewline n (Utf8.encode (unlines ls))
    obtain ⟨more', reads', next'⟩ := Feed.after_first small noNewline n
      (Utf8.encode (unlines ls) ++ bytes)
    rw [reads] at ok
    obtain ⟨⟨text, gives⟩, behind⟩ := List.forall_mem_cons.mp ok
    have decoded := decode_of_judgeLine gives
    rw [decode_line] at decoded
    rw [next _ gives] at behind
    rw [List.append_assoc, List.cons_append, reads', next' _ gives, gives, ih others behind,
      ← Except.ok.inj decoded, List.length_cons, Nat.add_assoc, Nat.add_comm 1]
    rfl

/-! ## The last token -/

theorem joinsNext_cons {c : Char} (noComment : c ≠ '#') {cs : List Char}
    (joins : joinsNext cs = true) : joinsNext (c :: cs) = true := by
  simp only [joinsNext, Bool.and_eq_true, Bool.not_eq_true', decide_eq_true_eq] at joins ⊢
  obtain ⟨comment, last⟩ := joins
  refine ⟨by simpa [Ne.symm noComment] using comment, ?_⟩
  rw [List.reverse_cons, List.dropWhile_append]
  split
  next empty =>
    rw [List.isEmpty_iff.mp empty] at last
    cases last
  next => rw [List.head?_append, last]; rfl

/-- A backslash with only blanks behind it joins the lines. -/
theorem joinsNext_of_joinsLines {cs : List Char} (oneLine : '\n' ∉ cs)
    (joins : joinsLines (cs ++ ['\n']) = true) : joinsNext ('\\' :: cs) = true := by
  have blank : ∀ c ∈ cs, isBlank c = true := by
    intro c hc
    have own := List.all_eq_true.mp joins c (List.mem_append_left _ hc)
    simp only [Bool.or_eq_true, decide_eq_true_eq] at own
    exact own.resolve_right fun newline => oneLine (newline ▸ hc)
  have noComment : '#' ∉ cs := fun comment => absurd (blank '#' comment) (by decide)
  have passed : cs.reverse.dropWhile isBlank = [] :=
    List.dropWhile_eq_nil_iff.mpr fun c hc => blank c (List.mem_reverse.mp hc)
  have slash : isBlank '\\' = false := by decide
  simp [joinsNext, noComment, List.dropWhile_append, passed, slash]

/-- The last token of a line that is not joined to the next one is a break. -/
theorem ends_lineTokens {cs : List Char} (oneLine : '\n' ∉ cs) (apart : joinsNext cs = false)
    (n : Nat) (word : Option PartialWord) (col : Nat) :
    ∃ front t, lineTokens n word col (cs ++ ['\n']) = front ++ [t] ∧ t.kind.isBreak = true := by
  induction cs generalizing word col with
  | nil => exact ⟨PartialWord.close word n ['\n'], _, rfl, rfl⟩
  | cons c cs ih =>
    obtain ⟨first, others⟩ := not_or.mp (mt List.mem_cons.mpr oneLine)
    have apart' : c ≠ '#' → joinsNext cs = false := fun noComment =>
      Bool.eq_false_iff.mpr fun joins => Bool.eq_false_iff.mp apart (joinsNext_cons noComment joins)
    have inFront : ∀ (own : List Token) {ts : List Token},
        (∃ front t, ts = front ++ [t] ∧ t.kind.isBreak = true) →
          ∃ front t, own ++ ts = front ++ [t] ∧ t.kind.isBreak = true := by
      rintro own _ ⟨front, t, rfl, isBreak⟩
      exact ⟨own ++ front, t, (List.append_assoc ..).symm, isBreak⟩
    rw [List.cons_append, lineTokens]
    split
    next inside =>
      refine ih others (apart' ?_) _ _
      rintro rfl
      cases inside
    next outside =>
      refine inFront _ ?_
      split
      next blank =>
        refine ih others (apart' ?_) _ _
        rintro rfl
        exact absurd blank (by decide)
      next =>
        rw [if_neg (Ne.symm first)]
        split
        next => exact ⟨[], _, rfl, rfl⟩
        next noComment =>
          split
          next slash =>
            subst slash
            have joins : joinsLines (cs ++ ['\n']) = true := by
              simpa [inWord, isDelimiter, isBlank] using outside
            exact absurd (joinsNext_of_joinsLines others joins) (Bool.eq_false_iff.mp apart)
          next => exact inFront [_] (ih others (apart' noComment) _ _)

/-- The last token of whole lines is a break. -/
theorem ends_tokensBehind {ls : List String} (oneLine : ∀ l ∈ ls, OneLine l)
    (apart : ∀ l ∈ ls.getLast?, joinsNext l.toList = false) (n : Nat) :
    tokensBehind n ls = [] ∧ ls = [] ∨
      ∃ front t, tokensBehind n ls = front ++ [t] ∧ t.kind.isBreak = true := by
  induction ls generalizing n with
  | nil => exact .inl ⟨rfl, rfl⟩
  | cons l ls ih =>
    obtain ⟨first, others⟩ := List.forall_mem_cons.mp oneLine
    refine .inr ?_
    rw [tokensBehind, Token.ofLine, String.toList_append]
    cases ls with
    | nil =>
      have own := ends_lineTokens first (apart l rfl) (n + 1) none 0
      simpa [tokensBehind] using own
    | cons l' ls =>
      rcases ih others (by simpa using apart) (n + 1) with ⟨-, none⟩ | ⟨front, t, ends, isBreak⟩
      · cases none
      · rw [ends, ← List.append_assoc]
        exact ⟨_, t, rfl, isBreak⟩

/-! ## The reader at the cut -/

/-- Where a break does nothing a statement may start, unless the reader is in parentheses. -/
theorem start_or_refuses {p : Phase} (rests : p.rests = true) :
    p = .start ∨ ∀ line, ∃ expected, p.step (.finish line) = .refuse expected := by
  cases p with
  | outside fresh =>
    left
    obtain rfl : fresh = true := rests
    rfl
  | source l => cases rests
  | afterSource l m => cases rests
  | list st place =>
    right
    intro line
    cases place with
    | opening => cases rests
    | entry enclosed =>
      obtain rfl : enclosed = true := rests
      exact ⟨_, rfl⟩
    | named enclosed e =>
      obtain rfl : enclosed = true := rests
      exact ⟨_, rfl⟩
    | behindAs enclosed name =>
      obtain rfl : enclosed = true := rests
      exact ⟨_, rfl⟩
    | closed => cases rests

/-- What is complete behind tokens that end in a break goes on with what a reader reads that
starts there. -/
theorem read_append {ts : List Token} {p : Phase} {line : Nat}
    (complete : (Script.read p (.ofTokens ts (.finish line))).ending = .complete)
    (ends : ts = [] ∧ p = .start ∨ ∃ front t, ts = front ++ [t] ∧ t.kind.isBreak = true)
    (rest : TokenStream) :
    Script.read p (.ofTokens ts rest) =
      ⟨(Script.read p (.ofTokens ts (.finish line))).statements ++
          (Script.read .start rest).statements,
        (Script.read .start rest).ending⟩ := by
  induction ts generalizing p with
  | nil =>
    rcases ends with ⟨-, rfl⟩ | ⟨front, t, none, -⟩
    · rfl
    · simp at none
  | cons t ts ih =>
    have atEnd : ∀ {q : Phase}, (ts = [] → t.kind.isBreak = true → q = .start) →
        ts = [] ∧ q = .start ∨ ∃ front t, ts = front ++ [t] ∧ t.kind.isBreak = true := by
      intro q start
      rcases ends with ⟨none, -⟩ | ⟨front, u, all, isBreak⟩
      · cases none
      · cases front with
        | nil =>
          cases all
          exact .inl ⟨rfl, start rfl isBreak⟩
        | cons f front =>
          cases all
          exact .inr ⟨front, u, rfl, isBreak⟩
    change (Script.read p (.token t (.ofTokens ts (.finish line)))).ending = .complete at complete
    show Script.read p (.token t (.ofTokens ts rest)) =
      ⟨(Script.read p (.token t (.ofTokens ts (.finish line)))).statements ++ _, _⟩
    rw [Script.read] at complete ⊢
    rw [Script.read]
    cases move : p.step t with
    | go q =>
      rw [move] at complete
      refine ih complete (atEnd ?_)
      rintro rfl isBreak
      refine (start_or_refuses (Phase.rests_of_go isBreak move)).resolve_right fun refuses => ?_
      obtain ⟨expected, refused⟩ := refuses line
      change (Script.read q (.finish line)).ending = .complete at complete
      rw [Script.read, refused] at complete
      cases complete
    | complete st q =>
      rw [move] at complete
      have others := ih complete (atEnd fun _ isBreak => by
        rw [Phase.outside_of_complete move, isBreak]
        rfl)
      exact congrArg (Script.cons st) others
    | refuse expected =>
      rw [move] at complete
      cases complete

/-! ## Runs -/

/-- The script of an input that starts further down. -/
theorem Script.read_after (k : Nat) (limit : UInt64) (n : Nat) (bytes : List UInt8) :
    Script.read .start (.after (n + k) (Feed.after limit (n + k) bytes)) =
      (Script.read .start (.after n (Feed.after limit n bytes))).renumber (· + k) := by
  have padded : TokenStream.Padded (· + k) false (.after n (Feed.after limit n bytes))
      (.after (n + k) (Feed.after limit (n + k) bytes)) :=
    .after limit (fun i => by omega) bytes
  exact padded.read (p := .start) nofun

/-- The tokens of lines and of more bytes, if all lines are read. -/
theorem tokens_append {limit : UInt64} (small : limit.toNat < UInt64.size - 2) {ls : List String}
    (oneLine : ∀ l ∈ ls, OneLine l)
    (ok : ∀ r ∈ Feed.ofText limit (unlines ls), ∃ text, r = .ok text) (bytes : List UInt8) :
    TokenStream.ofFeed (.ofBytes limit (Utf8.encode (unlines ls) ++ bytes)) =
      .ofTokens (tokensBehind 0 ls) (.after ls.length (Feed.after limit ls.length bytes)) := by
  rw [TokenStream.ofFeed, Feed.ofBytes, Feed.after_unlines_append small oneLine ok, after_lines,
    Nat.zero_add]

/-- The script of whole lines and more bytes has the statements of both. -/
theorem ofFeed_append {limit : UInt64} (small : limit.toNat < UInt64.size - 2) {text : String}
    (whole : WholeLines text) {S : List Statement}
    (reads : Grammar.Reads true (.ofFeed (.ofText limit text)) S none) (bytes : List UInt8)
    {behind : Script}
    (second : (Script.ofFeed (.ofBytes limit bytes)).renumber (· + text.toList.count '\n') =
      behind) :
    Script.ofFeed (.ofBytes limit (Utf8.encode text ++ bytes)) =
      ⟨S ++ behind.statements, behind.ending⟩ := by
  obtain ⟨ls, rfl, oneLine, apart, count⟩ := whole.exists_lines
  have tokens := tokens_append small oneLine (TokenStream.ok_of_unfailing reads.unfailing)
  have alone : TokenStream.ofFeed (.ofText limit (unlines ls)) =
      .ofTokens (tokensBehind 0 ls) (.finish (ls.length + 1)) := by
    have all := tokens []
    rw [List.append_nil, Feed.after_nil] at all
    exact all
  obtain ⟨statements, ends⟩ := Grammar.reads_iff.mp reads
  rw [Script.ofFeed, alone] at statements ends
  have complete : (Script.read .start (.ofTokens (tokensBehind 0 ls)
      (.finish (ls.length + 1)))).ending = .complete := by
    revert ends
    cases (Script.read .start (.ofTokens (tokensBehind 0 ls) (.finish (ls.length + 1)))).ending with
    | complete => exact fun _ => rfl
    | broken settled fault => nofun
  have atCut : tokensBehind 0 ls = [] ∧ Phase.start = .start ∨
      ∃ front t, tokensBehind 0 ls = front ++ [t] ∧ t.kind.isBreak = true :=
    (ends_tokensBehind oneLine apart 0).imp_left fun none => ⟨none.1, rfl⟩
  have moved := Script.read_after ls.length limit 0 bytes
  rw [Nat.zero_add] at moved
  rw [Script.ofFeed, tokens, read_append complete atCut, statements, ← second, count, moved]
  rfl

/-- A script with the statements of another in front is followed behind them. -/
theorem Session.follow_append (squash : Bool) (s : Session) (S : List Statement)
    (script : Script) :
    s.follow squash ⟨S ++ script.statements, script.ending⟩ =
      (s.performAll squash S).follow squash script := by
  rw [follow, follow, performAll, performAll, performAll, List.foldl_append]

/-- A run over whole lines and more bytes is a run over the lines and one over the bytes, if the
first one meets no fault.  It leaves the same arena and the same groups, but the groups that the
second run makes, and its fault, stand further down by the number of lines. -/
theorem Session.runBytes_append (settings : SortSettings)
    (small : settings.maxLineLength.toNat < UInt64.size - 2) (s : Session) {text : String}
    (whole : WholeLines text) (read : (s.runBytes settings (Utf8.encode text)).2 = none)
    (bytes : List UInt8) :
    s.runBytes settings (Utf8.encode text ++ bytes) =
      let first := (s.runBytes settings (Utf8.encode text)).1
      let second := first.runBytes settings bytes
      let lines := text.toList.count '\n'
      (second.1.renumberFrom (· + lines) first.groups.length,
        second.2.map (SyntaxFault.renumber (· + lines))) := by
  have script := ofFeed_append small whole (reads_of_no_fault read) bytes rfl
  let first := (s.runBytes settings (Utf8.encode text)).1
  have performed : first = s.performAll settings.squash _ := follow_of_no_fault read
  have unmoved : first.renumberFrom (· + text.toList.count '\n') first.groups.length = first :=
    congrArg (Session.mk first.arena) (Groups.renumberFrom_length ..)
  have second := follow_renumberFrom (· + text.toList.count '\n') settings.squash
    (Nat.le_refl first.groups.length) (Script.ofFeed (.ofBytes settings.maxLineLength bytes))
  rw [unmoved] at second
  calc s.runBytes settings (Utf8.encode text ++ bytes)
    _ = s.follow settings.squash (Script.ofFeed (.ofBytes _ (Utf8.encode text ++ bytes))) := rfl
    _ = first.follow settings.squash ((Script.ofFeed (.ofBytes _ bytes)).renumber _) := by
      rw [script, follow_append, performed]
      rfl
    _ = _ := second

/-- A comment joins no lines, also where it ends in a backslash.  The second source has a
duplicate, makes a group, and breaks off. -/
theorem Session.runBytes_append_of_comment :
    let first : Session := ⟨({} : Arena).alloc "a", [⟨.plain, [0], 1⟩]⟩
    let second : Session :=
      ⟨(first.arena.alloc "m").alloc "b", [⟨.plain, [0], 1⟩, ⟨.source 1, [2], 1⟩]⟩
    WholeLines "import a\n# \\\n" ∧
      Session.runBytes {} {} (Utf8.encode "import a\n# \\\n") = (first, none) ∧
      first.runBytes {} (Utf8.encode "from m import b\nimport a as\n") =
        (second, some (.unexpected 2 11 .asName .lineBreak)) ∧
      Session.runBytes {} {} (Utf8.encode "import a\n# \\\n" ++
          Utf8.encode "from m import b\nimport a as\n") =
        (⟨second.arena, [⟨.plain, [0], 1⟩, ⟨.source 1, [2], 3⟩]⟩,
          some (.unexpected 4 11 .asName .lineBreak)) := by
  intro first second
  have whole : WholeLines "import a\n# \\\n" := ⟨by decide +kernel, by decide +kernel⟩
  have run : Session.runBytes {} {} (Utf8.encode "import a\n# \\\n") = (first, none) := by
    decide +kernel
  have run' : first.runBytes {} (Utf8.encode "from m import b\nimport a as\n") =
      (second, some (.unexpected 2 11 .asName .lineBreak)) := by
    decide +kernel
  have both := Session.runBytes_append {} (by decide) {} whole (by rw [run])
    (Utf8.encode "from m import b\nimport a as\n")
  rw [run] at both
  dsimp only at both
  rw [run'] at both
  refine ⟨whole, run, run', both.trans ?_⟩
  decide +kernel

end ImportTidy
