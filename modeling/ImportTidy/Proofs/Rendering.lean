import ImportTidy.Proofs.Block
import ImportTidy.Proofs.Lexing
import ImportTidy.Proofs.Lines
import ImportTidy.Proofs.NaturalOrder

/-!
# The words of a rendered statement

A rendered statement is one line, or several lines in parentheses.  `Layout.lines` are
these lines, and `Block.spells` reads their words back.  The one line is a bare list.
The others are an enclosed one, with a line break in it behind all but the last line.

The names must be texts of entries that can be read as identifiers (`IsName`).  The one
line may not end in a backslash, since the line behind it would be joined to it.  No other
line ends in a name.
-/

namespace ImportTidy

/-! ## Lines -/

namespace Layout

/-- The lines of names in parentheses.  `front` stands in front of the first line. -/
def closed (front : String) (indent : Nat) : List (List String) → List String
  | [] => [front ++ ")"]
  | [names] => [front ++ (flat names ++ ")")]
  | names :: more :: rest =>
      (front ++ (flat names ++ ",")) :: closed (blanks indent) indent (more :: rest)

/-- The lines of a statement. -/
def lines (rule : WrapRule) (lead : String) (names : List String) : List String :=
  if wraps rule names.length (lead ++ flat names).length then
    closed (lead ++ "(") (lead.length + 1) (wrapLines rule (lead.length + 1) names)
  else [lead ++ flat names]

theorem unlines_closed (front : String) (indent : Nat) (ls : List (List String)) :
    unlines (closed front indent ls) =
      front ++ (",\n" ++ blanks indent).intercalate (ls.map flat) ++ ")" ++ "\n" := by
  induction ls generalizing front with
  | nil => simp [closed, unlines_cons, unlines_nil]
  | cons names ls ih =>
    cases ls with
    | nil => simp [closed, unlines_cons, unlines_nil, String.append_assoc]
    | cons more rest =>
      have step : (",\n" ++ blanks indent).intercalate ((names :: more :: rest).map flat) =
          flat names ++ (",\n" ++ blanks indent) ++
            (",\n" ++ blanks indent).intercalate ((more :: rest).map flat) :=
        String.intercalate_cons_cons
      rw [closed, unlines_cons, ih, step]
      have join : ",\n" = "," ++ "\n" := rfl
      simp only [join, String.append_assoc]

/-- The lines are those of the rendered text. -/
theorem unlines_lines (rule : WrapRule) (lead : String) (names : List String) :
    unlines (lines rule lead names) = render rule lead names ++ "\n" := by
  rw [lines, render]
  split
  · simp only [unlines_closed, String.append_assoc]
  · simp [unlines_cons, unlines_nil]

/-- A line that is wrapped takes a name before it is full. -/
theorem ne_nil_of_isFull {rule : WrapRule} {isFirst : Bool} {width : Nat} {line : List String}
    {name : String} (h : isFull rule isFirst width line name = true) : line ≠ [] := by
  rintro rfl
  have room : 0 < capacity rule isFirst := by
    rw [capacity]
    split
    next some => exact of_decide_eq_true (Bool.and_eq_true_iff.mp some).2
    next => omega
  simp only [isFull, List.length_nil, ge_iff_le, Nat.le_zero, List.isEmpty_nil, Bool.not_true,
    Bool.and_false, Bool.false_and, Bool.or_false, decide_eq_true_eq] at h
  omega

/-- No line is without a name. -/
theorem nil_not_mem_wrapFrom (rule : WrapRule) (indent : Nat) (isFirst : Bool) (width : Nat)
    (line names : List String) : [] ∉ wrapFrom rule indent isFirst width line names := by
  induction names generalizing isFirst width line with
  | nil => cases line <;> simp [wrapFrom]
  | cons name names ih =>
    rw [wrapFrom]
    split
    next full =>
      rw [List.mem_cons, not_or]
      refine ⟨fun empty => ne_nil_of_isFull full ?_, ih _ _ _⟩
      exact List.reverse_eq_nil_iff.mp empty.symm
    next => exact ih _ _ _

end Layout

theorem OneLine.append {s t : String} (hs : OneLine s) (ht : OneLine t) : OneLine (s ++ t) := by
  simpa [OneLine] using ⟨hs, ht⟩

theorem OneLine.flat {names : List String} (h : ∀ n ∈ names, OneLine n) :
    OneLine (Layout.flat names) := by
  induction names with
  | nil => simp [Layout.flat, OneLine]
  | cons n names ih =>
    obtain ⟨first, others⟩ := List.forall_mem_cons.mp h
    cases names with
    | nil => simpa [Layout.flat] using first
    | cons m names =>
      rw [Layout.flat, String.intercalate_cons_cons]
      exact (first.append (by simp [OneLine])).append (ih others)

theorem OneLine.blanks (n : Nat) : OneLine (Layout.blanks n) := by
  simp [OneLine, Layout.blanks]

theorem OneLine.closed {front : String} (hf : OneLine front) (indent : Nat)
    {ls : List (List String)} (h : ∀ names ∈ ls, ∀ n ∈ names, OneLine n) :
    ∀ l ∈ Layout.closed front indent ls, OneLine l := by
  induction ls generalizing front with
  | nil => simpa [Layout.closed] using hf.append (by simp [OneLine])
  | cons names ls ih =>
    obtain ⟨first, others⟩ := List.forall_mem_cons.mp h
    cases ls with
    | nil =>
      simpa [Layout.closed] using hf.append ((OneLine.flat first).append (by simp [OneLine]))
    | cons more rest =>
      rw [Layout.closed, List.forall_mem_cons]
      exact ⟨hf.append ((OneLine.flat first).append (by simp [OneLine])),
        ih (OneLine.blanks indent) others⟩

/-- Where no name has a newline, no line has one. -/
theorem OneLine.lines {rule : WrapRule} {lead : String} (hl : OneLine lead) {names : List String}
    (h : ∀ n ∈ names, OneLine n) : ∀ l ∈ Layout.lines rule lead names, OneLine l := by
  rw [Layout.lines]
  split
  · refine OneLine.closed (hl.append (by simp [OneLine])) _ fun line hline n hn => h n ?_
    rw [← Layout.flatten_wrapLines rule (lead.length + 1) names]
    exact List.mem_flatten_of_mem hline hn
  · simpa using hl.append (OneLine.flat h)

/-! ## Entries -/

/-- The entry can be read as it is. -/
structure Entry.Proper (e : Entry) : Prop where
  /-- The name can be read. -/
  name : IsIdentifier e.name
  /-- So can the other name. -/
  asName : ∀ a, e.asName = some a → IsIdentifier a

/-- The text is that of an entry that can be read. -/
def IsName (text : String) : Prop := ∃ e : Entry, e.Proper ∧ e.text = text

/-- The words of an entry. -/
def Entry.words (e : Entry) : List Word :=
  match e.asName with
  | none => [⟨.identifier, e.name⟩]
  | some a => [⟨.identifier, e.name⟩, ⟨.asWord, "as"⟩, ⟨.identifier, a⟩]

/-- The words of entries with a comma between each two. -/
def commaWords : List Entry → List Word
  | [] => []
  | [e] => e.words
  | e :: e' :: es => e.words ++ ⟨.comma, ","⟩ :: commaWords (e' :: es)

theorem IsWord.oneLine {w : String} (h : IsWord w) : OneLine w := by
  intro newline
  have := h.chars _ newline
  cases this

theorem IsName.oneLine {text : String} (h : IsName text) : OneLine text := by
  obtain ⟨e, proper, rfl⟩ := h
  unfold Entry.text
  cases asName : e.asName with
  | none => exact proper.name.oneLine
  | some a =>
    have other := (proper.asName a asName).oneLine
    exact (proper.name.oneLine.append (by simp [OneLine])).append other

/-- What is made of every item is made of some list. -/
theorem exists_map_eq {α β : Type} {f : α → β} {P : α → Prop} {ys : List β}
    (h : ∀ y ∈ ys, ∃ x, P x ∧ f x = y) : ∃ xs : List α, (∀ x ∈ xs, P x) ∧ xs.map f = ys := by
  induction ys with
  | nil => exact ⟨[], by simp, rfl⟩
  | cons y ys ih =>
    obtain ⟨⟨x, first, rfl⟩, others⟩ := List.forall_mem_cons.mp h
    obtain ⟨xs, rest, rfl⟩ := ih others
    exact ⟨x :: xs, List.forall_mem_cons.mpr ⟨first, rest⟩, rfl⟩

/-- Names are the texts of entries. -/
theorem exists_entries {names : List String} (h : ∀ n ∈ names, IsName n) :
    ∃ es : List Entry, (∀ e ∈ es, e.Proper) ∧ es.map Entry.text = names :=
  exists_map_eq h

/-- Lines of names are lines of the texts of entries. -/
theorem exists_entries_lines {ls : List (List String)} (h : ∀ names ∈ ls, ∀ n ∈ names, IsName n) :
    ∃ ess : List (List Entry), (∀ es ∈ ess, ∀ e ∈ es, e.Proper) ∧
      ess.map (List.map Entry.text) = ls :=
  exists_map_eq fun names hnames => exists_entries (h names hnames)

open Grammar

theorem Entry.spells (e : Entry) : SpellsEntry e e.words := by
  obtain ⟨n, asName⟩ := e
  cases asName with
  | none => exact .name
  | some a => exact .renamed rfl

theorem spellsEntries_commaWords {es : List Entry} (h : es ≠ []) :
    SpellsEntries es (commaWords es) := by
  induction es with
  | nil => exact absurd rfl h
  | cons e es ih =>
    cases es with
    | nil => exact .one e.spells
    | cons e' es => exact (SpellsEntries.one e.spells).append rfl (ih (List.cons_ne_nil e' es))

theorem commaWords_append {es es' : List Entry} (h : es ≠ []) (h' : es' ≠ []) :
    commaWords (es ++ es') = commaWords es ++ ⟨.comma, ","⟩ :: commaWords es' := by
  induction es with
  | nil => exact absurd rfl h
  | cons e es ih =>
    cases es with
    | nil =>
      obtain ⟨e', rest, rfl⟩ := List.exists_cons_of_ne_nil h'
      rfl
    | cons e' es =>
      rw [List.cons_append, List.cons_append, commaWords, ← List.cons_append,
        ih (List.cons_ne_nil e' es), commaWords]
      simp

theorem withoutBreaks_commaWords (es : List Entry) :
    withoutBreaks (commaWords es) = commaWords es := by
  have entry : ∀ e : Entry, withoutBreaks e.words = e.words := by
    rintro ⟨n, asName⟩
    cases asName <;> rfl
  induction es with
  | nil => rfl
  | cons e es ih =>
    cases es with
    | nil => exact entry e
    | cons e' es =>
      have comma : (⟨.comma, ","⟩ : Word) :: commaWords (e' :: es) =
          [⟨.comma, ","⟩] ++ commaWords (e' :: es) := rfl
      rw [commaWords, withoutBreaks_append, entry, comma, withoutBreaks_append, ih]
      rfl

/-! ## Their characters -/

/-- A delimiter stops a word where something stands behind it on the line. -/
theorem Stops.of_delimiter {d : Char} (h : isDelimiter d = true) {cs rest : List Char}
    (more : joinsLines (d :: rest) = false) : Stops cs (d :: rest) :=
  ⟨⟨d, rest, rfl, h⟩, fun _ => more⟩

/-- What stops a text stops its last part. -/
theorem Stops.of_append {cs cs' rest : List Char} (h : Stops (cs ++ cs') rest) :
    Stops cs' rest := by
  refine ⟨h.1, fun last => h.2 ?_⟩
  rw [List.getLast?_append, last]
  rfl

/-- A keyword in front of a blank. -/
theorem Lexes.keyword {w : String} (h : w ∈ ["from", "import", "as"]) (rest : List Char) :
    Lexes w.toList [⟨wordKind w, w⟩] (' ' :: rest) := by
  have checked : w.toList ≠ [] ∧ (∀ c ∈ w.toList, isDelimiter c = false) ∧
      w.toList.getLast? ≠ some '\\' := by
    simp only [List.mem_cons, List.not_mem_nil, or_false] at h
    rcases h with rfl | rfl | rfl <;> simp <;> decide
  obtain ⟨some, chars, noSlash⟩ := checked
  exact .word ⟨some, chars⟩ ⟨⟨' ', rest, rfl, rfl⟩, fun slash => absurd slash noSlash⟩

theorem Lexes.entry {e : Entry} (proper : e.Proper) {rest : List Char}
    (stops : Stops e.text.toList rest) : Lexes e.text.toList e.words rest := by
  unfold Entry.text Entry.words at *
  cases asName : e.asName with
  | none =>
    rw [asName] at stops
    exact .identifier proper.name stops
  | some a =>
    rw [asName] at stops
    have chars : (e.name ++ " as " ++ a).toList =
        e.name.toList ++ ([' '] ++ ("as".toList ++ ([' '] ++ a.toList))) := by
      simp
    simp only [chars] at stops ⊢
    have last : Lexes ([' '] ++ a.toList) [⟨.identifier, a⟩] rest := .behindBlank
      (.identifier (proper.asName a asName) stops.of_append.of_append.of_append.of_append)
    have isAs : Lexes "as".toList [⟨.asWord, "as"⟩] ([' '] ++ a.toList ++ rest) :=
      .keyword (w := "as") (by simp) _
    refine .cons (.identifier proper.name ?_) ?_
    · exact .of_delimiter rfl rfl
    · exact .behindBlank (.cons isAs last)

/-- Names on a line, with a comma and a blank between each two. -/
theorem Lexes.flat {es : List Entry} (proper : ∀ e ∈ es, e.Proper) (h : es ≠ [])
    {rest : List Char} (stops : Stops (Layout.flat (es.map Entry.text)).toList rest) :
    Lexes (Layout.flat (es.map Entry.text)).toList (commaWords es) rest := by
  induction es with
  | nil => exact absurd rfl h
  | cons e es ih =>
    obtain ⟨first, others⟩ := List.forall_mem_cons.mp proper
    cases es with
    | nil =>
      simp only [Layout.flat, List.map_cons, List.map_nil, String.intercalate_singleton] at stops ⊢
      exact .entry first stops
    | cons e' es =>
      have chars : (Layout.flat ((e :: e' :: es).map Entry.text)).toList =
          e.text.toList ++ ([','] ++ ([' '] ++ (Layout.flat ((e' :: es).map Entry.text)).toList)) := by
        simp only [Layout.flat, List.map_cons, String.intercalate_cons_cons, String.toList_append]
        simp
      rw [chars] at stops ⊢
      have more := ih others (List.cons_ne_nil e' es) stops.of_append.of_append.of_append
      exact .append (.entry first (.of_delimiter rfl rfl)) (.cons .comma (.behindBlank more))

/-- The words in front of the list of a statement. -/
def leadWords : Origin → List Word
  | .plain => [⟨.importWord, "import"⟩]
  | .source m => [⟨.fromWord, "from"⟩, ⟨.identifier, m⟩, ⟨.importWord, "import"⟩]

theorem spellsLead_leadWords (o : Origin) : SpellsLead o (leadWords o) := by
  cases o with
  | plain => exact .plain rfl
  | source m => exact .source rfl rfl

theorem Lexes.lead {o : Origin} (source : ∀ m, o = .source m → IsIdentifier m)
    (rest : List Char) : Lexes (Session.leadOf o.source?).toList (leadWords o) rest := by
  have import_ : ∀ rest, Lexes ("import".toList ++ [' ']) [⟨.importWord, "import"⟩] rest :=
    fun rest => .cons (.keyword (w := "import") (by simp) _) .blank
  cases o with
  | plain => exact import_ rest
  | source m =>
    have chars : (Session.leadOf (Origin.source m).source?).toList =
        "from".toList ++ ([' '] ++ (m.toList ++ ([' '] ++ ("import".toList ++ [' '])))) := by
      simp [Session.leadOf, Origin.source?]
    rw [chars]
    refine .cons (.keyword (w := "from") (by simp) _) ?_
    refine .behindBlank (.cons (.identifier (source m rfl) ?_) ?_)
    · exact .of_delimiter rfl rfl
    · exact .behindBlank (import_ rest)

/-! ## The tokens of lines -/

/-- The tokens of lines behind `n` others. -/
def tokensBehind (n : Nat) : List String → List Token
  | [] => []
  | l :: ls => Token.ofLine (n + 1) (l ++ "\n") ++ tokensBehind (n + 1) ls

theorem ofTokens_append (ts ts' : List Token) (rest : TokenStream) :
    TokenStream.ofTokens (ts ++ ts') rest = .ofTokens ts (.ofTokens ts' rest) :=
  List.foldr_append

/-- The tokens of a feed that starts with these lines. -/
theorem after_lines (n : Nat) (ls : List String) (feed : Feed) :
    TokenStream.after n ((ls.map fun l => .ok (l ++ "\n")) ++ feed) =
      .ofTokens (tokensBehind n ls) (TokenStream.after (n + ls.length) feed) := by
  induction ls generalizing n with
  | nil => rfl
  | cons l ls ih =>
    rw [List.map_cons, List.cons_append, TokenStream.after, ih, tokensBehind, ofTokens_append,
      List.length_cons, Nat.add_assoc, Nat.add_comm 1]

/-- The first token of lines stands on the first of them, if that is split into words. -/
theorem Lexes.line_of_head {l : String} {ws : List Word} (h : Lexes l.toList ws ['\n']) (n : Nat)
    (ls : List String) : ∀ t ∈ (tokensBehind n (l :: ls)).head?, t.line = n + 1 := by
  obtain ⟨words, lines⟩ := h.ofLine (n + 1)
  rw [tokensBehind]
  cases tokens : Token.ofLine (n + 1) (l ++ "\n") with
  | nil => simp [tokens, wordsOf] at words
  | cons t ts =>
    rintro u ⟨⟩
    exact lines t (by simp [tokens])

/-- The words of a list in parentheses, with the breaks between its lines. -/
theorem words_closed {front : String} {fore : List Word}
    (lexes : ∀ rest, Lexes front.toList fore rest) (indent : Nat) {ess : List (List Entry)}
    (some : ess ≠ []) (proper : ∀ es ∈ ess, es ≠ [] ∧ ∀ e ∈ es, e.Proper) (n : Nat) :
    ∃ body, withoutBreaks body = commaWords ess.flatten ∧
      wordsOf (tokensBehind n (Layout.closed front indent (ess.map (List.map Entry.text)))) =
        fore ++ body ++ [⟨.rightParen, ")"⟩, ⟨.lineBreak, "\n"⟩] ∧
      ∀ t ∈ (tokensBehind n (Layout.closed front indent (ess.map (List.map Entry.text)))).head?,
        t.line = n + 1 := by
  induction ess generalizing front fore n with
  | nil => exact absurd rfl some
  | cons es ess ih =>
    obtain ⟨⟨ne_nil, first⟩, others⟩ := List.forall_mem_cons.mp proper
    cases ess with
    | nil =>
      have line : Lexes (front ++ (Layout.flat (es.map Entry.text) ++ ")")).toList
          (fore ++ (commaWords es ++ [⟨.rightParen, ")"⟩])) ['\n'] := by
        rw [String.toList_append, String.toList_append]
        exact (lexes _).append ((Lexes.flat first ne_nil (.of_delimiter rfl rfl)).append .rightParen)
      refine ⟨commaWords es, by simpa using withoutBreaks_commaWords es, ?_, line.line_of_head n []⟩
      rw [List.map_singleton, Layout.closed, tokensBehind, tokensBehind, List.append_nil,
        (line.ofLine (n + 1)).1]
      simp
    | cons es' ess =>
      have line : Lexes (front ++ (Layout.flat (es.map Entry.text) ++ ",")).toList
          (fore ++ (commaWords es ++ [⟨.comma, ","⟩])) ['\n'] := by
        rw [String.toList_append, String.toList_append]
        exact (lexes _).append ((Lexes.flat first ne_nil (.of_delimiter rfl rfl)).append .comma)
      have gap : ∀ rest, Lexes (Layout.blanks indent).toList [] rest := fun rest => by
        rw [Layout.blanks, String.toList_ofList]
        exact .blanks indent
      obtain ⟨body, entries, words, -⟩ := ih gap (List.cons_ne_nil es' ess) others (n + 1)
      have more : (es' :: ess).flatten ≠ [] := by
        simpa using fun empty => absurd empty (others es' (by simp)).1
      refine ⟨commaWords es ++ ⟨.comma, ","⟩ :: ⟨.lineBreak, "\n"⟩ :: body, ?_, ?_,
        line.line_of_head n _⟩
      · rw [List.flatten_cons, commaWords_append ne_nil more, ← entries, withoutBreaks_append,
          withoutBreaks_commaWords]
        rfl
      · simp only [List.map_cons] at words ⊢
        rw [Layout.closed, tokensBehind, wordsOf, List.map_append, ← wordsOf, ← wordsOf,
          (line.ofLine (n + 1)).1, words]
        simp

/-- The line ends in a backslash. -/
def EndsInBackslash (l : String) : Prop := l.toList.getLast? = some '\\'

/-- Several lines in parentheses spell a statement with all names of the lines. -/
theorem spells_closed {o : Origin} (source : ∀ m, o = .source m → IsIdentifier m)
    {ls : List (List String)} (noEmpty : [] ∉ ls) (some : ls ≠ [])
    (names : ∀ name ∈ ls.flatten, IsName name) (indent n : Nat) :
    ∃ es ws, es.map Entry.text = ls.flatten ∧ Spells o es ws ⟨.lineBreak, "\n"⟩ ∧
      wordsOf (tokensBehind n (Layout.closed (Session.leadOf o.source? ++ "(") indent ls)) =
        ws ++ [⟨.lineBreak, "\n"⟩] ∧
      ∀ t ∈ (tokensBehind n (Layout.closed (Session.leadOf o.source? ++ "(") indent ls)).head?,
        t.line = n + 1 := by
  obtain ⟨ess, proper, rfl⟩ := exists_entries_lines fun line hline name hname =>
    names name (List.mem_flatten_of_mem hline hname)
  have noEmpty' : ∀ es ∈ ess, es ≠ [] := by
    rintro es hes rfl
    exact noEmpty (List.mem_map.mpr ⟨[], hes, rfl⟩)
  have someLine : ess ≠ [] := by
    rintro rfl
    exact some rfl
  have someEntry : ess.flatten ≠ [] := by
    obtain ⟨es, rest, rfl⟩ := List.exists_cons_of_ne_nil someLine
    rw [List.flatten_cons]
    exact List.append_ne_nil_of_left_ne_nil (noEmpty' es (by simp)) _
  have front : ∀ rest, Lexes (Session.leadOf o.source? ++ "(").toList
      (leadWords o ++ [⟨.leftParen, "("⟩]) rest := fun rest => by
    rw [String.toList_append]
    exact (Lexes.lead source _).append .leftParen
  obtain ⟨body, entries, words, line⟩ := words_closed front indent someLine
    (fun es hes => ⟨noEmpty' es hes, proper es hes⟩) n
  refine ⟨ess.flatten, leadWords o ++ (⟨.leftParen, "("⟩ :: body ++ [⟨.rightParen, ")"⟩]),
    List.map_flatten, ?_, ?_, line⟩
  · refine .intro (spellsLead_leadWords o) (.enclosed rfl
      (spellsEntries_commaWords someEntry) (.inl rfl) ?_ rfl)
    rw [entries, List.append_nil]
  · rw [words]
    simp

/-- One line spells a statement, if its end does not join it to the next one. -/
theorem spells_flat {o : Origin} (source : ∀ m, o = .source m → IsIdentifier m)
    {names : List String} (some : names ≠ []) (isName : ∀ name ∈ names, IsName name)
    (slash : ¬ EndsInBackslash (Session.leadOf o.source? ++ Layout.flat names)) (n : Nat) :
    ∃ es ws, es.map Entry.text = names ∧ Spells o es ws ⟨.lineBreak, "\n"⟩ ∧
      wordsOf (tokensBehind n [Session.leadOf o.source? ++ Layout.flat names]) =
        ws ++ [⟨.lineBreak, "\n"⟩] ∧
      ∀ t ∈ (tokensBehind n [Session.leadOf o.source? ++ Layout.flat names]).head?,
        t.line = n + 1 := by
  obtain ⟨es, proper, rfl⟩ := exists_entries isName
  have someEntry : es ≠ [] := by
    rintro rfl
    exact some rfl
  have stops : Stops (Layout.flat (es.map Entry.text)).toList ['\n'] := by
    refine ⟨⟨'\n', [], rfl, rfl⟩, fun last => absurd ?_ slash⟩
    rw [EndsInBackslash, String.toList_append, List.getLast?_append, last]
    rfl
  have line : Lexes (Session.leadOf o.source? ++ Layout.flat (es.map Entry.text)).toList
      (leadWords o ++ commaWords es) ['\n'] := by
    rw [String.toList_append]
    exact (Lexes.lead source _).append (.flat proper someEntry stops)
  refine ⟨es, leadWords o ++ commaWords es, rfl, ?_, ?_, line.line_of_head n []⟩
  · exact .intro (spellsLead_leadWords o) (.bare (spellsEntries_commaWords someEntry) nofun nofun)
  · rw [tokensBehind, tokensBehind, List.append_nil, (line.ofLine (n + 1)).1]

/-! ## Blocks -/

/-- The block can be rendered and read. -/
structure Block.Proper (b : Block) : Prop where
  /-- It has a name. -/
  ne_nil : b.names ≠ []
  /-- Its source can be read. -/
  source : ∀ m, b.origin = .source m → IsIdentifier m
  /-- So can its names. -/
  names : ∀ n ∈ b.names, IsName n

/-- The lines of a block. -/
def Block.lines (rule : WrapRule) (b : Block) : List String :=
  Layout.lines rule (Session.leadOf b.origin.source?) (NaturalOrder.sort b.names)

namespace Block

variable {b : Block}

theorem unlines_lines (rule : WrapRule) (b : Block) :
    unlines (b.lines rule) = b.render rule ++ "\n" :=
  Layout.unlines_lines ..

theorem Proper.sorted (h : b.Proper) : ∀ n ∈ NaturalOrder.sort b.names, IsName n :=
  fun n hn => h.names n (NaturalOrder.mem_sort.mp hn)

theorem Proper.sorted_ne_nil (h : b.Proper) : NaturalOrder.sort b.names ≠ [] := fun empty =>
  h.ne_nil (List.perm_nil.mp (empty ▸ (NaturalOrder.sort_perm b.names).symm))

theorem Proper.oneLine (h : b.Proper) (rule : WrapRule) : ∀ l ∈ b.lines rule, OneLine l := by
  refine OneLine.lines ?_ fun n hn => (h.sorted n hn).oneLine
  cases origin : b.origin with
  | plain => simp [OneLine, Origin.source?, Session.leadOf]
  | source m =>
    have module := (h.source m origin).oneLine
    exact OneLine.append (OneLine.append (by simp [OneLine]) module) (by simp [OneLine])

/-- The lines of a block spell one statement on the first of them, which the last line break
ends. -/
theorem Proper.spells (h : b.Proper) {rule : WrapRule}
    (slashes : ∀ l ∈ b.lines rule, ¬ EndsInBackslash l) (n : Nat) :
    ∃ es ws, es.map Entry.text = NaturalOrder.sort b.names ∧
      Spells b.origin es ws ⟨.lineBreak, "\n"⟩ ∧
      wordsOf (tokensBehind n (b.lines rule)) = ws ++ [⟨.lineBreak, "\n"⟩] ∧
      ∀ t ∈ (tokensBehind n (b.lines rule)).head?, t.line = n + 1 := by
  unfold Block.lines Layout.lines at *
  split
  next =>
    have flatten := Layout.flatten_wrapLines rule
      ((Session.leadOf b.origin.source?).length + 1) (NaturalOrder.sort b.names)
    have some : Layout.wrapLines rule ((Session.leadOf b.origin.source?).length + 1)
        (NaturalOrder.sort b.names) ≠ [] := by
      intro empty
      rw [empty] at flatten
      exact h.sorted_ne_nil flatten.symm
    have noEmpty : [] ∉ Layout.wrapLines rule ((Session.leadOf b.origin.source?).length + 1)
        (NaturalOrder.sort b.names) := Layout.nil_not_mem_wrapFrom _ _ _ _ _ _
    obtain ⟨es, ws, texts, spelled, words⟩ := spells_closed h.source noEmpty some
      (fun name hname => h.sorted name (flatten ▸ hname))
      ((Session.leadOf b.origin.source?).length + 1) n
    exact ⟨es, ws, texts.trans flatten, spelled, words⟩
  next bare =>
    rw [if_neg bare, List.forall_mem_singleton] at slashes
    exact spells_flat h.source h.sorted_ne_nil h.sorted slashes n

end Block

end ImportTidy
