import ImportTidy.Proofs.Grammar

/-!
# Splitting lines that are known

The tokens of a line are found character by character, with the word at hand as a
state.  `Lexes` forgets the state: in front of certain characters a text is split into
certain words, wherever in a line it starts.  It joins texts (`Lexes.append`), so the
words of a rendered line are put together as the line was.

A word must be followed by a delimiter.  One that ends in a backslash must moreover be
followed by something else than blanks and the newline, since the backslash joins the
lines otherwise (`Stops`).

The other direction is `words_ofLine`.  Whatever the line is, its words are nonempty, have
no delimiter, and are not longer than the line.
-/

namespace ImportTidy

/-! ## Words -/

/-- The text can be read as one word. -/
structure IsWord (w : String) : Prop where
  /-- It has a character. -/
  ne_nil : w.toList ≠ []
  /-- No character ends it. -/
  chars : ∀ c ∈ w.toList, isDelimiter c = false

/-- The text can be read as an identifier. -/
structure IsIdentifier (w : String) : Prop extends IsWord w where
  /-- It is no keyword. -/
  noKeyword : wordKind w = .identifier

/-- The characters end a word of those characters. -/
def Stops (cs rest : List Char) : Prop :=
  (∃ d rest', rest = d :: rest' ∧ isDelimiter d = true) ∧
    (cs.getLast? = some '\\' → joinsLines rest = false)

/-- A character that is neither a blank nor the newline is no end of a line. -/
theorem joinsLines_cons {c : Char} (h : isBlank c = false) (noNewline : c ≠ '\n')
    (cs : List Char) : joinsLines (c :: cs) = false := by
  simp [joinsLines, h, noNewline]

theorem not_blank_of_not_delimiter {c : Char} (h : isDelimiter c = false) :
    isBlank c = false ∧ c ≠ '\n' := by
  simp only [isDelimiter, Bool.or_eq_false_iff, decide_eq_false_iff_not] at h
  exact ⟨h.1.1.1.1.1, h.1.1.2⟩

/-- Characters in a word go on with it. -/
theorem inWord_of_stops {c : Char} {cs rest : List Char}
    (chars : ∀ d ∈ c :: cs, isDelimiter d = false) (stops : Stops (c :: cs) rest) :
    inWord c (cs ++ rest) = true := by
  obtain ⟨first, others⟩ := List.forall_mem_cons.mp chars
  rw [inWord, first]
  cases cs with
  | nil =>
    by_cases slash : c = '\\'
    · simp [slash, stops.2 (by simp [slash])]
    · simp [slash]
  | cons d cs =>
    obtain ⟨noBlank, noNewline⟩ := not_blank_of_not_delimiter (others d (by simp))
    simp [joinsLines_cons noBlank noNewline]

theorem Stops.tail {c : Char} {cs rest : List Char} (h : Stops (c :: cs) rest) :
    Stops cs rest := by
  refine ⟨h.1, fun last => h.2 ?_⟩
  rw [List.getLast?_cons, last]
  rfl

/-- A delimiter closes the word at hand. -/
theorem lineTokens_delimiter {d : Char} (h : isDelimiter d = true) (n col : Nat)
    (w : PartialWord) (rest : List Char) :
    lineTokens n (some w) col (d :: rest) =
      PartialWord.close (some w) n (d :: rest) ++ lineTokens n none col (d :: rest) := by
  have outside : inWord d rest = false := by
    rw [inWord, h]
    rfl
  rw [lineTokens, lineTokens, outside]
  rfl

/-- The rest of a word, and what stops it. -/
theorem lineTokens_word {cs rest : List Char} (chars : ∀ c ∈ cs, isDelimiter c = false)
    (stops : Stops cs rest) (n col : Nat) (w : PartialWord) :
    ∃ t col', t.word = ⟨wordKind (String.ofList (w.reversed.reverse ++ cs)),
        String.ofList (w.reversed.reverse ++ cs)⟩ ∧ t.line = n ∧
      lineTokens n (some w) col (cs ++ rest) = t :: lineTokens n none col' rest := by
  induction cs generalizing col w with
  | nil =>
    obtain ⟨⟨d, rest', rfl, ends⟩, -⟩ := stops
    rw [List.append_nil, List.nil_append, lineTokens_delimiter ends]
    exact ⟨_, col, rfl, rfl, rfl⟩
  | cons c cs ih =>
    obtain ⟨t, col', word, line, tokens⟩ := ih (List.forall_mem_cons.mp chars).2 stops.tail
      (col + c.utf8Size) (PartialWord.extend (some w) col c)
    refine ⟨t, col', ?_, line, ?_⟩
    · rw [word]
      simp [PartialWord.extend]
    · rw [List.cons_append, lineTokens, if_pos (inWord_of_stops chars stops)]
      exact tokens

/-! ## Texts in front of others -/

/-- In front of `rest` the characters are split into these words. -/
def Lexes (cs : List Char) (ws : List Word) (rest : List Char) : Prop :=
  ∀ n col, ∃ ts col', wordsOf ts = ws ∧ (∀ t ∈ ts, t.line = n) ∧
    lineTokens n none col (cs ++ rest) = ts ++ lineTokens n none col' rest

namespace Lexes

variable {cs cs' rest : List Char} {ws ws' : List Word}

theorem nil : Lexes [] [] rest := fun _ col => ⟨[], col, rfl, nofun, rfl⟩

theorem append (h : Lexes cs ws (cs' ++ rest)) (h' : Lexes cs' ws' rest) :
    Lexes (cs ++ cs') (ws ++ ws') rest := by
  intro n col
  obtain ⟨ts, col₁, words, lines, tokens⟩ := h n col
  obtain ⟨ts', col₂, words', lines', tokens'⟩ := h' n col₁
  refine ⟨ts ++ ts', col₂, ?_, ?_, ?_⟩
  · rw [wordsOf, List.map_append, ← words, ← words']
    rfl
  · intro t ht
    exact (List.mem_append.mp ht).elim (lines t) (lines' t)
  · rw [List.append_assoc, tokens, tokens', List.append_assoc]

/-- One word in front of others. -/
theorem cons {w : Word} (h : Lexes cs [w] (cs' ++ rest)) (h' : Lexes cs' ws' rest) :
    Lexes (cs ++ cs') (w :: ws') rest := h.append h'

/-- Blanks are no words. -/
theorem ofBlanks (blank : ∀ c ∈ cs, isBlank c = true) : Lexes cs [] rest := by
  induction cs with
  | nil => exact nil
  | cons c cs ih =>
    obtain ⟨first, others⟩ := List.forall_mem_cons.mp blank
    have one : Lexes [c] [] (cs ++ rest) := by
      intro n col
      have outside : inWord c (cs ++ rest) = false := by simp [inWord, isDelimiter, first]
      refine ⟨[], col + 1, rfl, nofun, ?_⟩
      rw [List.singleton_append, lineTokens, outside, first]
      rfl
    exact append one (ih others)

theorem blank : Lexes [' '] [] rest := ofBlanks (by simp [isBlank])

/-- A blank in front of words. -/
theorem behindBlank (h : Lexes cs ws rest) : Lexes ([' '] ++ cs) ws rest :=
  append blank h

theorem blanks (n : Nat) : Lexes (List.replicate n ' ') [] rest := by
  refine ofBlanks fun c mem => ?_
  rw [List.eq_of_mem_replicate mem]
  rfl

theorem comma : Lexes [','] [⟨.comma, ","⟩] rest := fun n col =>
  ⟨[⟨.comma, ",", n, col, 1 + leadingBlanks rest⟩], col + 1, rfl, by simp, rfl⟩

theorem leftParen : Lexes ['('] [⟨.leftParen, "("⟩] rest := fun n col =>
  ⟨[⟨.leftParen, "(", n, col, 1 + leadingBlanks rest⟩], col + 1, rfl, by simp, rfl⟩

theorem rightParen : Lexes [')'] [⟨.rightParen, ")"⟩] rest := fun n col =>
  ⟨[⟨.rightParen, ")", n, col, 1 + leadingBlanks rest⟩], col + 1, rfl, by simp, rfl⟩

theorem word {w : String} (h : IsWord w) (stops : Stops w.toList rest) :
    Lexes w.toList [⟨wordKind w, w⟩] rest := by
  intro n col
  obtain ⟨c, cs, chars⟩ := List.exists_cons_of_ne_nil h.ne_nil
  have all := h.chars
  rw [chars] at all stops ⊢
  obtain ⟨t, col', word, line, tokens⟩ := lineTokens_word (List.forall_mem_cons.mp all).2
    stops.tail n (col + c.utf8Size) (PartialWord.extend none col c)
  have text : String.ofList ((PartialWord.extend none col c).reversed.reverse ++ cs) = w := by
    rw [← String.ofList_toList (s := w), chars]
    rfl
  rw [text] at word
  refine ⟨[t], col', congrArg (· :: []) word, by simpa using line, ?_⟩
  rw [List.cons_append, lineTokens, if_pos (inWord_of_stops all stops)]
  exact tokens

theorem identifier {w : String} (h : IsIdentifier w) (stops : Stops w.toList rest) :
    Lexes w.toList [⟨.identifier, w⟩] rest := by
  have found := word h.toIsWord stops
  rwa [h.noKeyword] at found

end Lexes

/-- A line that is split into known words up to its newline. -/
theorem Lexes.ofLine {l : String} {ws : List Word} (h : Lexes l.toList ws ['\n']) (n : Nat) :
    wordsOf (Token.ofLine n (l ++ "\n")) = ws ++ [⟨.lineBreak, "\n"⟩] ∧
      ∀ t ∈ Token.ofLine n (l ++ "\n"), t.line = n := by
  obtain ⟨ts, col, words, lines, tokens⟩ := h n 0
  have all : Token.ofLine n (l ++ "\n") = ts ++ [⟨.lineBreak, "\n", n, col, 1⟩] := by
    rw [Token.ofLine, String.toList_append]
    exact tokens
  rw [all]
  constructor
  · rw [wordsOf, List.map_append, ← words]
    rfl
  · intro t ht
    rcases List.mem_append.mp ht with ht | ht
    · exact lines t ht
    · rw [List.mem_singleton.mp ht]

/-! ## The words of any line -/

/-- The kinds of words. -/
def TokenKind.isWord : TokenKind → Bool
  | .fromWord => true
  | .importWord => true
  | .asWord => true
  | .identifier => true
  | _ => false

/-- The token is a word of at most `size` characters. -/
structure Token.IsWord (size : Nat) (t : Token) : Prop where
  /-- Its text can be read as a word. -/
  word : ImportTidy.IsWord t.text
  /-- Its kind is that of its text. -/
  kind : t.kind = wordKind t.text
  /-- Its text is not longer. -/
  length_le : t.text.toList.length ≤ size

/-- The number of characters of the word at hand. -/
def PartialWord.size : Option PartialWord → Nat
  | none => 0
  | some w => w.reversed.length

/-- The word at hand is one. -/
def PartialWord.Fits (word : Option PartialWord) : Prop :=
  ∀ w, word = some w → w.reversed ≠ [] ∧ ∀ c ∈ w.reversed, isDelimiter c = false

theorem PartialWord.fits_none : Fits none := fun _ h => nomatch h

theorem PartialWord.Fits.extend {word : Option PartialWord} (h : Fits word) (col : Nat) {c : Char}
    (inside : isDelimiter c = false) : Fits (some (PartialWord.extend word col c)) := by
  rintro w ⟨⟩
  cases word with
  | none => exact ⟨by simp [PartialWord.extend], by simpa [PartialWord.extend] using inside⟩
  | some w =>
    refine ⟨by simp [PartialWord.extend], fun d hd => ?_⟩
    rcases List.mem_cons.mp hd with rfl | hd
    · exact inside
    · exact (h w rfl).2 d hd

theorem PartialWord.size_extend (word : Option PartialWord) (col : Nat) (c : Char) :
    size (some (PartialWord.extend word col c)) = size word + 1 := by
  cases word <;> rfl

/-- A word that is closed is one. -/
theorem PartialWord.Fits.close {word : Option PartialWord} (h : Fits word) {n : Nat}
    {behind : List Char} {t : Token} (ht : t ∈ PartialWord.close word n behind) :
    t.IsWord (size word) := by
  cases word with
  | none => cases ht
  | some w =>
    obtain ⟨ne_nil, chars⟩ := h w rfl
    rw [PartialWord.close, List.mem_singleton] at ht
    subst ht
    exact ⟨⟨by simpa using ne_nil, by simpa using chars⟩, rfl, by simp [size]⟩

/-- Where a word stops, it is closed, and at most one token follows that is no word. -/
theorem lineTokens_stop {c : Char} {cs : List Char} (outside : inWord c cs = false) (n col : Nat)
    (word : Option PartialWord) :
    ∃ own more, lineTokens n word col (c :: cs) =
        PartialWord.close word n (c :: cs) ++ (own ++ more) ∧
      (∀ t ∈ own, t.kind.isWord = false ∧ '\\' ∉ t.text.toList) ∧
      (more = [] ∨ more = lineTokens n none (col + 1) cs) := by
  rw [lineTokens, outside]
  simp only [Bool.false_eq_true, if_false]
  split
  next => exact ⟨[], _, rfl, nofun, .inr rfl⟩
  next =>
    split
    next => exact ⟨[⟨.lineBreak, "\n", n, col, _⟩], [], rfl, by simp [TokenKind.isWord], .inl rfl⟩
    next =>
      split
      next => exact ⟨[⟨.comment, "#", n, col, _⟩], [], rfl, by simp [TokenKind.isWord], .inl rfl⟩
      next =>
        split
        next => exact ⟨[], [], rfl, nofun, .inl rfl⟩
        next noSlash =>
          refine ⟨[_], _, rfl, ?_, .inr rfl⟩
          rw [List.forall_mem_singleton]
          refine ⟨?_, by simpa using Ne.symm noSlash⟩
          dsimp only
          split
          · rfl
          · split <;> rfl

theorem words_lineTokens {n col : Nat} {word : Option PartialWord}
    (fits : PartialWord.Fits word) (cs : List Char) {t : Token} (ht : t ∈ lineTokens n word col cs)
    (isWord : t.kind.isWord = true) : t.IsWord (PartialWord.size word + cs.length) := by
  induction cs generalizing col word with
  | nil =>
    rcases List.mem_append.mp ht with ht | ht
    · exact fits.close ht
    · rw [List.mem_singleton.mp ht] at isWord
      cases isWord
  | cons c cs ih =>
    by_cases inside : inWord c cs = true
    · rw [lineTokens, if_pos inside] at ht
      have noDelimiter : isDelimiter c = false := by
        simpa using (Bool.and_eq_true_iff.mp inside).1
      have found := ih (fits.extend col noDelimiter) ht
      rw [PartialWord.size_extend, Nat.add_right_comm] at found
      exact found
    · obtain ⟨own, more, tokens, noWords, rest⟩ :=
        lineTokens_stop (Bool.eq_false_iff.mpr inside) n col word
      rw [tokens] at ht
      rcases List.mem_append.mp ht with ht | ht
      · obtain ⟨isWord_t, kind, length⟩ := fits.close ht
        exact ⟨isWord_t, kind, Nat.le_add_right_of_le length⟩
      · rcases List.mem_append.mp ht with ht | ht
        · rw [(noWords t ht).1] at isWord
          cases isWord
        · rcases rest with rfl | rfl
          · cases ht
          · obtain ⟨isWord_t, kind, length⟩ := ih PartialWord.fits_none ht
            simp only [PartialWord.size, List.length_cons] at length ⊢
            exact ⟨isWord_t, kind, by omega⟩

/-- The words of a line are words, and not longer than the line. -/
theorem words_ofLine {n : Nat} {l : String} {t : Token} (ht : t ∈ Token.ofLine n l)
    (isWord : t.kind.isWord = true) : t.IsWord l.toList.length := by
  have found := words_lineTokens PartialWord.fits_none _ ht isWord
  rwa [PartialWord.size, Nat.zero_add] at found

/-- The identifiers of a line are identifiers. -/
theorem identifiers_ofLine {n : Nat} {l : String} {t : Token} (ht : t ∈ Token.ofLine n l)
    (kind : t.kind = .identifier) : IsIdentifier t.text := by
  have found := words_ofLine ht (by rw [kind]; rfl)
  exact ⟨found.word, found.kind.symm.trans kind⟩

end ImportTidy
