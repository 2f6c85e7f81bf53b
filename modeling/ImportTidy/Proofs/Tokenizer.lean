import ImportTidy.Proofs.ByteClasses

/-!
# The calls of a tokenizer

No call of a tokenizer fails.  A scan finds the next tile of a line (`scanLine_of_tiled`), and
every call gives the next token of the stream that a script is read from
(`Tokenizer.gives_next?`).  `Tokenizer.splits_lines` is the induction over the calls, for an
input of lines.
-/

namespace ImportTidy

/-! ## One scan -/

variable {n : Nat} {front rest own behind : List Char} {ts : List Token}

theorem bytesFrom?_bytesOf (front rest : List Char) :
    bytesFrom? (bytesOf (front ++ rest)) (byteSize front) = some (bytesOf rest) := by
  have inRange : byteSize front ≤ (bytesOf (front ++ rest)).length := by
    rw [length_bytesOf, byteSize_append]
    exact Nat.le_add_right _ _
  rw [bytesFrom?, if_pos inRange, bytesOf_append, ← length_bytesOf, List.drop_left]

theorem skipBlanks?_bytesOf (front rest : List Char) :
    skipBlanks? (bytesOf (front ++ rest)) (byteSize front) =
      some (byteSize front + leadingBlanks rest) := by
  rw [skipBlanks?, bytesFrom?_bytesOf, Option.map_some, length_takeWhile_isBlankByte]

/-- A scan passes over blanks. -/
theorem scanLine_blank {c : Char} (blank : isBlank c = true) (front behind : List Char) :
    scanLine (bytesOf (front ++ c :: behind)) (byteSize front) =
      scanLine (bytesOf (front ++ [c] ++ behind)) (byteSize (front ++ [c])) := by
  have whole : front ++ [c] ++ behind = front ++ c :: behind := by simp
  have skipped := skipBlanks?_bytesOf (front ++ [c]) behind
  rw [scanLine, scanLine, skipped, whole, skipBlanks?_bytesOf, leadingBlanks_cons_of_blank blank,
    byteSize_append, byteSize_cons, utf8Size_of_isBlank blank, byteSize_nil, Nat.add_assoc]

theorem scanLine_of_joined {front rest : List Char} (noBlank : leadingBlanks rest = 0)
    (lexeme : lexemeOf (bytesOf rest) = none) :
    scanLine (bytesOf (front ++ rest)) (byteSize front) = some .joined := by
  rw [scanLine, skipBlanks?_bytesOf, noBlank, Nat.add_zero, Option.bind_eq_bind, Option.bind_some,
    bytesFrom?_bytesOf, Option.bind_eq_bind, Option.bind_some, lexeme]
  rfl

/-- A scan finds the lexeme at the cursor, and goes on behind the blanks that follow. -/
theorem scanLine_of_found {kind : TokenKind} (noBlank : leadingBlanks (own ++ behind) = 0)
    (lexeme : lexemeOf (bytesOf (own ++ behind)) = some (kind, byteSize own)) :
    scanLine (bytesOf (front ++ (own ++ behind))) (byteSize front) =
      some (.found kind (byteSize front) (byteSize front + byteSize own)
        (byteSize front + (byteSize own + leadingBlanks behind))) := by
  have next := skipBlanks?_bytesOf (front ++ own) behind
  rw [List.append_assoc, byteSize_append, Nat.add_assoc] at next
  rw [scanLine, skipBlanks?_bytesOf, noBlank, Nat.add_zero, Option.bind_eq_bind, Option.bind_some,
    bytesFrom?_bytesOf, Option.bind_eq_bind, Option.bind_some, lexeme]
  simp only [next, Option.bind_some]
  rfl

/-- Tiles behind blanks. -/
theorem Tiled.skip (h : Tiled n front rest ts) :
    Tiled n (front ++ rest.takeWhile isBlank) (rest.dropWhile isBlank) ts := by
  have stays : ∀ {front rest ts}, Tiled n front rest ts → leadingBlanks rest = 0 →
      Tiled n (front ++ rest.takeWhile isBlank) (rest.dropWhile isBlank) ts := by
    intro front rest ts h noBlank
    have taken := List.length_eq_zero_iff.mp noBlank
    have dropped := rest.takeWhile_append_dropWhile (p := isBlank)
    rw [taken, List.nil_append] at dropped
    rwa [taken, dropped, List.append_nil]
  induction h with
  | finish => exact stays .finish rfl
  | newline => exact stays .newline rfl
  | comment => exact stays .comment rfl
  | joined joins => exact stays (.joined joins) rfl
  | blank isBlank _ ih => simpa [isBlank] using ih
  | token lexeme others => exact stays (.token lexeme others) lexeme.leadingBlanks_eq

/-- A scan finds this token, and goes on at the others unless the line is done. -/
structure Finds (n : Nat) (front rest : List Char) (t : Token) (ts : List Token) : Prop where
  scan : scanLine (bytesOf (front ++ rest)) (byteSize front) =
    some (.found t.kind t.column (t.column + t.text.utf8ByteSize) (t.column + t.stride))
  last : t.kind.isBreak = true → ts = []
  others : t.kind.isBreak = false → ∃ front' rest', front' ++ rest' = front ++ rest ∧
    byteSize front' = t.column + t.stride ∧ Tiled n front' rest' ts

/-- A break is found at the end of a line. -/
theorem finds_break {kind : TokenKind} (isBreak : kind.isBreak = true)
    (noBlank : leadingBlanks (own ++ behind) = 0)
    (lexeme : lexemeOf (bytesOf (own ++ behind)) = some (kind, byteSize own)) :
    Finds n front (own ++ behind)
      ⟨kind, .ofList own, n, byteSize front, byteSize own + leadingBlanks behind⟩ [] where
  scan := scanLine_of_found noBlank lexeme
  last _ := rfl
  others noBreak := by
    rw [isBreak] at noBreak
    cases noBreak

theorem finds_lexeme {kind : TokenKind} (lexeme : Lexeme own behind kind)
    (others : Tiled n (front ++ own) behind ts) :
    Finds n front (own ++ behind)
      ⟨kind, .ofList own, n, byteSize front, byteSize own + leadingBlanks behind⟩ ts where
  scan := scanLine_of_found lexeme.leadingBlanks_eq (lexemeOf_of_lexeme lexeme)
  last isBreak := by
    rw [lexeme.noBreak] at isBreak
    cases isBreak
  others _ := by
    refine ⟨_, _, ?_, ?_, others.skip⟩
    · simp
    · rw [byteSize_append, byteSize_append, byteSize_takeWhile_isBlank, Nat.add_assoc]

/-- A scan finds the next token of the tiles. -/
theorem scanLine_of_tiled (h : Tiled n front rest ts) :
    ts = [] ∧ scanLine (bytesOf (front ++ rest)) (byteSize front) = some .joined ∨
      ∃ t ts', ts = t :: ts' ∧ Finds n front rest t ts' := by
  induction h with
  | finish => exact .inr ⟨_, _, rfl, @finds_break _ _ [] [] _ rfl rfl rfl⟩
  | newline => exact .inr ⟨_, _, rfl, @finds_break _ _ ['\n'] _ _ rfl rfl (lexemeOf_newline _)⟩
  | comment => exact .inr ⟨_, _, rfl, @finds_break _ _ ['#'] _ _ rfl rfl (lexemeOf_comment _)⟩
  | joined joins => exact .inl ⟨rfl, scanLine_of_joined rfl (lexemeOf_joined joins)⟩
  | @blank front behind c ts isBlank _ ih =>
    have whole : front ++ [c] ++ behind = front ++ c :: behind := by simp
    rcases ih with ⟨none, joined⟩ | ⟨t, ts', tokens, scan, last, others⟩
    · exact .inl ⟨none, (scanLine_blank isBlank front behind).trans joined⟩
    · rw [whole] at others
      exact .inr ⟨t, ts', tokens, (scanLine_blank isBlank front behind).trans scan, last, others⟩
  | token lexeme others => exact .inr ⟨_, _, rfl, finds_lexeme lexeme others⟩

namespace Tokenizer

/-! ## Calls and the stream -/

/-- What is left for a tokenizer to give is this stream. -/
inductive Agrees : Tokenizer → TokenStream → Prop where
  | pending {feed : Feed} {line : String} {cursor n : Nat} :
      Agrees ⟨feed, line, cursor, n, .pending⟩ (.after n feed)
  | opened {feed : Feed} {n : Nat} {front rest : List Char} {ts : List Token}
      (tiled : Tiled n front rest ts) :
      Agrees ⟨feed, .ofList (front ++ rest), byteSize front, n, .opened⟩
        (.ofTokens ts (.after n feed))
  | finished {feed : Feed} {line : String} {cursor n : Nat} :
      Agrees ⟨feed, line, cursor, n, .finished⟩ (.finish (n + 1))

/-- A call does not fail, and gives what is next in the stream. -/
def Gives (given : Option (Except ReadError Token × Tokenizer)) (stream : TokenStream) : Prop :=
  ∃ s, given = some (stream.next.1, s) ∧ Agrees s stream.next.2

theorem gives_give? (feed : Feed) {t : Token} (tiled : Tiled n front rest (t :: ts))
    (finds : Finds n front rest t ts) :
    Gives (give? feed (.ofList (front ++ rest)) n t.kind t.column
        (t.column + t.text.utf8ByteSize) (t.column + t.stride))
      (.ofTokens (t :: ts) (.after n feed)) := by
  obtain ⟨atLine, text⟩ := tiled.text List.mem_cons_self
  rw [give?, text, Nat.add_sub_cancel_left, ← atLine]
  refine ⟨_, rfl, ?_⟩
  cases isBreak : t.kind.isBreak with
  | true =>
    rw [finds.last isBreak]
    exact .pending
  | false =>
    obtain ⟨front', rest', whole, cursor, others⟩ := finds.others isBreak
    rw [← whole, ← cursor, atLine]
    exact .opened others

theorem gives_nextLine? (n : Nat) (feed : Feed) : Gives (nextLine? n feed) (.after n feed) := by
  induction feed generalizing n with
  | nil => exact ⟨_, rfl, .finished⟩
  | cons read feed ih =>
    cases read with
    | error e => exact ⟨_, rfl, .pending⟩
    | ok line =>
      have tiled := tiled_ofLine (n + 1) line
      have whole : String.ofList ([] ++ line.toList) = line := String.ofList_toList
      have cursor : byteSize [] = 0 := rfl
      rw [nextLine?, TokenStream.after]
      rcases scanLine_of_tiled tiled with ⟨none, scan⟩ | ⟨t, ts, tokens, finds⟩
      · rw [bytesOf, whole, cursor] at scan
        simp only [scan, none]
        exact ih (n + 1)
      · have scan := finds.scan
        rw [bytesOf, whole, cursor] at scan
        rw [tokens] at tiled ⊢
        have given := gives_give? feed tiled finds
        rw [whole] at given
        simp only [scan]
        exact given

/-- The step lemma: every call gives the next token of the stream. -/
theorem gives_next? {s : Tokenizer} {stream : TokenStream} (h : Agrees s stream) :
    Gives s.next? stream := by
  cases h with
  | pending => exact gives_nextLine? _ _
  | @opened feed n front rest ts tiled =>
    rcases scanLine_of_tiled tiled with ⟨rfl, scan⟩ | ⟨t, ts, rfl, finds⟩
    · rw [bytesOf] at scan
      simp only [next?, scan]
      exact gives_nextLine? n feed
    · have scan := finds.scan
      rw [bytesOf] at scan
      simp only [next?, scan]
      exact gives_give? feed tiled finds
  | finished => exact ⟨_, rfl, .finished⟩

end Tokenizer

/-- What call number `k` gives. -/
def TokenStream.nth : TokenStream → Nat → Except ReadError Token
  | stream, 0 => stream.next.1
  | stream, k + 1 => stream.next.2.nth k

namespace Tokenizer

/-! ## Lines read -/

/-- The tokenizer has read so many of the lines as it counts. -/
def HasRead (ls : List String) (s : Tokenizer) : Prop :=
  s.feed = (ls.drop s.linesRead).map .ok ∧ s.linesRead ≤ ls.length

/-- A token stands on the last line that was read, except for the end of the input. -/
def OnLastLine (given : Except ReadError Token × Tokenizer) : Prop :=
  ∀ t, given.1 = .ok t → t.line = given.2.linesRead ∨ t.kind = .finish

variable {ls : List String} {s : Tokenizer} {given : Except ReadError Token × Tokenizer}

theorem of_give? {feed : Feed} {line : String} {kind : TokenKind} {start stop next : Nat}
    (read : feed = (ls.drop n).map .ok) (le : n ≤ ls.length)
    (h : give? feed line n kind start stop next = some given) :
    HasRead ls given.2 ∧ OnLastLine given := by
  obtain ⟨text, -, isGiven⟩ := Option.bind_eq_some_iff.mp h
  cases isGiven
  refine ⟨⟨read, le⟩, ?_⟩
  rintro t ⟨⟩
  exact .inl rfl

theorem of_nextLine? {feed : Feed} (read : feed = (ls.drop n).map .ok) (le : n ≤ ls.length)
    (h : nextLine? n feed = some given) : HasRead ls given.2 ∧ OnLastLine given := by
  induction feed generalizing n with
  | nil =>
    cases h
    refine ⟨⟨read, le⟩, ?_⟩
    rintro t ⟨⟩
    exact .inr rfl
  | cons first feed ih =>
    have inside : n < ls.length := by
      have length := congrArg List.length read
      simp at length
      omega
    rw [List.drop_eq_getElem_cons inside, List.map_cons] at read
    obtain ⟨rfl, others⟩ := List.cons.inj read
    rw [nextLine?] at h
    split at h
    next => cases h
    next => exact ih others inside h
    next => exact of_give? others inside h

theorem of_next? (read : HasRead ls s) (h : s.next? = some given) :
    HasRead ls given.2 ∧ OnLastLine given := by
  rw [next?] at h
  split at h
  next => exact of_nextLine? read.1 read.2 h
  next =>
    split at h
    next => cases h
    next => exact of_nextLine? read.1 read.2 h
    next => exact of_give? read.1 read.2 h
  next =>
    cases h
    refine ⟨read, ?_⟩
    rintro t ⟨⟩
    exact .inr rfl

/-! ## Runs -/

/-- The run lemma: every call gives its token of the stream. -/
theorem nth?_of_agrees {stream : TokenStream} (h : Agrees s stream) (k : Nat) :
    ∃ s', s.nth? k = some (stream.nth k, s') := by
  induction k generalizing s stream with
  | zero =>
    obtain ⟨s', given, -⟩ := gives_next? h
    exact ⟨s', given⟩
  | succ k ih =>
    obtain ⟨s', given, agrees⟩ := gives_next? h
    obtain ⟨s'', later⟩ := ih agrees
    refine ⟨s'', ?_⟩
    rw [nth?, given]
    exact later

theorem of_nth? (read : HasRead ls s) (k : Nat) (h : s.nth? k = some given) :
    HasRead ls given.2 ∧ OnLastLine given := by
  induction k generalizing s with
  | zero => exact of_next? read h
  | succ k ih =>
    obtain ⟨first, next, later⟩ := Option.bind_eq_some_iff.mp h
    exact ih (of_next? read next).1 later

end Tokenizer

/-! ## The tokens of lines -/

/-- The tokens of lines, the first of them of this number. -/
def tokensFrom (n : Nat) (ls : List String) : List Token :=
  (ls.zipIdx n).flatMap fun l => Token.ofLine l.2 l.1

theorem after_map_ok (n : Nat) (ls : List String) :
    TokenStream.after n (ls.map .ok) =
      .ofTokens (tokensFrom (n + 1) ls) (.finish (n + ls.length + 1)) := by
  induction ls generalizing n with
  | nil => rfl
  | cons l ls ih =>
    rw [List.map_cons, TokenStream.after, ih, tokensFrom, tokensFrom, List.zipIdx_cons,
      List.flatMap_cons, ofTokens_append, Nat.add_right_comm n 1 ls.length]
    rfl

theorem nth_ofTokens (ts : List Token) (line k : Nat) :
    (TokenStream.ofTokens ts (.finish line)).nth k = .ok (ts[k]?.getD (.finish line)) := by
  induction k generalizing ts with
  | zero => cases ts <;> rfl
  | succ k ih =>
    cases ts with
    | nil => exact ih []
    | cons t ts => exact ih ts

theorem mem_tokensFrom {ls : List String} {t : Token} (mem : t ∈ tokensFrom 1 ls) :
    ∃ i l, ls[i]? = some l ∧ t ∈ Token.ofLine (i + 1) l := by
  obtain ⟨⟨l, i⟩, at_, mem⟩ := List.mem_flatMap.mp mem
  obtain ⟨le, found⟩ := List.mk_mem_zipIdx_iff_le_and_getElem?_sub.mp at_
  refine ⟨i - 1, l, found, ?_⟩
  rwa [Nat.sub_add_cancel le]

theorem Tiled.kind_ne_finish {t : Token} (h : Tiled n front rest ts) (mem : t ∈ ts) :
    t.kind ≠ .finish := by
  intro isFinish
  rcases h.inner mem (by rw [isFinish]; rfl) with (⟨kind, -⟩ | ⟨kind, -⟩ | ⟨kind, -⟩) | ⟨isWord, -⟩
  · cases isFinish.symm.trans kind
  · cases isFinish.symm.trans kind
  · cases isFinish.symm.trans kind
  · rw [isFinish] at isWord
    cases isWord

/-- Lines are split without loss, however often a tokenizer is called.

No call fails, and the calls give the tokens of the lines in order, and then the end of the
input every time.  A token stands on the last line that was read by then.  The tokens of each
line are all there is in it (`SplitLine`). -/
theorem Tokenizer.splits_lines (ls : List String) (newlineLast : ∀ l ∈ ls, NewlineLast l.toList) :
    (∀ i l, ls[i]? = some l → SplitLine (i + 1) l (Token.ofLine (i + 1) l)) ∧
    ∀ k, ∃ s, nth? { feed := ls.map .ok } k =
        some ((TokenStream.ofFeed (ls.map .ok)).nth k, s) ∧
      (TokenStream.ofFeed (ls.map .ok)).nth k =
        .ok ((tokensFrom 1 ls)[k]?.getD (.finish (ls.length + 1))) ∧
      HasRead ls s ∧
      ∀ t, (tokensFrom 1 ls)[k]? = some t → t.line = s.linesRead ∧
        ∃ i l, s.linesRead = i + 1 ∧ ls[i]? = some l ∧ t ∈ Token.ofLine (i + 1) l := by
  refine ⟨fun i l found => splitLine_ofLine (i + 1) (newlineLast l (List.mem_of_getElem? found)),
    fun k => ?_⟩
  have start : HasRead ls { feed := ls.map .ok } := ⟨rfl, Nat.zero_le _⟩
  obtain ⟨s, given⟩ := nth?_of_agrees (.pending : Agrees { feed := ls.map .ok } _) k
  obtain ⟨read, onLastLine⟩ := of_nth? start k given
  have nth : (TokenStream.ofFeed (ls.map .ok)).nth k =
      .ok ((tokensFrom 1 ls)[k]?.getD (.finish (ls.length + 1))) := by
    rw [TokenStream.ofFeed, after_map_ok, nth_ofTokens, Nat.zero_add, Nat.zero_add]
  refine ⟨s, given, nth, read, fun t found => ?_⟩
  obtain ⟨i, l, at_, mem⟩ := mem_tokensFrom (List.mem_of_getElem? found)
  have tiled := tiled_ofLine (i + 1) l
  have isToken : (TokenStream.ofFeed (ls.map .ok)).nth k = .ok t := by
    rw [nth, found]
    rfl
  have atLine := (onLastLine t isToken).resolve_right (tiled.kind_ne_finish mem)
  exact ⟨atLine, i, l, atLine.symm.trans (tiled.text mem).1, at_, mem⟩

/-- The first line is joined to the second one.  The fourth call gives the first token there. -/
theorem Tokenizer.splits_lines_of_joined :
    let ls := ["a,é \\\r\n", "b#\n"]
    (∀ l ∈ ls, NewlineLast l.toList) ∧
      SplitLine 1 "a,é \\\r\n" [⟨.identifier, "a", 1, 0, 1⟩, ⟨.comma, ",", 1, 1, 1⟩,
        ⟨.identifier, "é", 1, 2, 3⟩] ∧
      ∃ s, nth? { feed := ls.map .ok } 3 = some (.ok ⟨.identifier, "b", 2, 0, 1⟩, s) ∧
        s.linesRead = 2 := by
  intro ls
  have newlineLast : ∀ l ∈ ls, NewlineLast l.toList := by decide +kernel
  have first : Token.ofLine 1 "a,é \\\r\n" = [⟨.identifier, "a", 1, 0, 1⟩, ⟨.comma, ",", 1, 1, 1⟩,
      ⟨.identifier, "é", 1, 2, 3⟩] := by decide +kernel
  have fourth : (tokensFrom 1 ls)[3]? = some ⟨.identifier, "b", 2, 0, 1⟩ := by decide +kernel
  obtain ⟨lines, calls⟩ := Tokenizer.splits_lines ls newlineLast
  obtain ⟨s, given, token, -, read⟩ := calls 3
  refine ⟨newlineLast, first ▸ lines 0 _ rfl, s, ?_, (read _ fourth).1.symm⟩
  rw [given, token, fourth]
  rfl

end ImportTidy
