import Mathlib.Data.List.Chain
import Mathlib.Data.List.TakeWhile
import ImportTidy.Proofs.Scripts
import ImportTidy.Text.Slice

/-!
# Lines are split without loss

`Tiled` is how a line is split, clause by clause: blanks belong to no token, a delimiter that
is no blank is one, and so is a run of other characters (`Lexeme`).  It goes through the
line from the front, so what stands in front of a token is known, and with it the column.

The tokens of a line tile it (`tiled_ofLine`).  Everything else is read off the tiles, by one
induction for each: where the text of a token stands, what lies between two tokens, how the
line ends, and where a word stops.  `SplitLine` puts it together.

Places in a line count bytes, and the part of a line between two of them is taken with `sliceOf?`.
-/

namespace ImportTidy

/-! ## Parts of a line -/

/-- The bytes of characters. -/
def byteSize (cs : List Char) : Nat := (String.ofList cs).utf8ByteSize

@[simp] theorem byteSize_nil : byteSize [] = 0 := rfl

@[simp] theorem byteSize_cons (c : Char) (cs : List Char) :
    byteSize (c :: cs) = c.utf8Size + byteSize cs := by
  rw [byteSize, String.ofList_cons, String.utf8ByteSize_append, String.utf8ByteSize_singleton]
  rfl

@[simp] theorem byteSize_append (cs cs' : List Char) :
    byteSize (cs ++ cs') = byteSize cs + byteSize cs' := by
  rw [byteSize, String.ofList_append, String.utf8ByteSize_append]
  rfl

theorem utf8ByteSize_ofList (cs : List Char) : (String.ofList cs).utf8ByteSize = byteSize cs := rfl

theorem utf8Size_of_isBlank {c : Char} (blank : isBlank c = true) : c.utf8Size = 1 := by
  simp only [isBlank, Bool.or_eq_true, decide_eq_true_eq] at blank
  rcases blank with (rfl | rfl) | rfl <;> rfl

theorem sliceOf?_ofList (front part behind : List Char) :
    sliceOf? (.ofList (front ++ (part ++ behind))) (byteSize front)
      (byteSize front + byteSize part) = some (.ofList part) := by
  rw [String.ofList_append, String.ofList_append, ← String.append_assoc]
  exact sliceOf?_append _ _ _

/-! ## Characters with what is behind them -/

/-- Each of the characters is so, with all characters behind it. -/
def Each (p : Char → List Char → Prop) : List Char → List Char → Prop
  | [], _ => True
  | c :: cs, behind => p c (cs ++ behind) ∧ Each p cs behind

theorem each_append {p : Char → List Char → Prop} {cs cs' behind : List Char} :
    Each p (cs ++ cs') behind ↔ Each p cs (cs' ++ behind) ∧ Each p cs' behind := by
  induction cs with
  | nil => simp [Each]
  | cons c cs ih => simp [Each, ih, and_assoc]

theorem Each.imp {p q : Char → List Char → Prop} (weaken : ∀ c cs, p c cs → q c cs)
    {cs behind : List Char} (h : Each p cs behind) : Each q cs behind := by
  induction cs with
  | nil => trivial
  | cons c cs ih => exact ⟨weaken _ _ h.1, ih h.2⟩

/-- Each of the characters is so, wherever the others are cut. -/
theorem Each.of_append {p : Char → List Char → Prop} {front cs behind : List Char} {c : Char}
    (h : Each p (front ++ c :: cs) behind) : p c (cs ++ behind) := (each_append.mp h).2.1

/-- Characters at which a word ends, or none. -/
def EndsWord (behind : List Char) : Prop := ∀ c cs, behind = c :: cs → inWord c cs = false

/-- The characters are one token, in front of the others. -/
inductive Lexeme : List Char → List Char → TokenKind → Prop where
  | comma {behind : List Char} : Lexeme [','] behind .comma
  | leftParen {behind : List Char} : Lexeme ['('] behind .leftParen
  | rightParen {behind : List Char} : Lexeme [')'] behind .rightParen
  /-- A word goes on to the first character that is in no word. -/
  | word {own behind : List Char} (some : own ≠ []) (inside : Each (inWord · · = true) own behind)
      (stops : EndsWord behind) : Lexeme own behind (wordKind (.ofList own))

/-- The rest of a line, behind the characters `front`, has these tokens. -/
inductive Tiled (n : Nat) : List Char → List Char → List Token → Prop where
  /-- The end of a line that has no newline. -/
  | finish {front : List Char} : Tiled n front [] [⟨.lineBreak, "", n, byteSize front, 0⟩]
  | newline {front behind : List Char} :
      Tiled n front ('\n' :: behind)
        [⟨.lineBreak, "\n", n, byteSize front, 1 + leadingBlanks behind⟩]
  | comment {front behind : List Char} :
      Tiled n front ('#' :: behind)
        [⟨.comment, "#", n, byteSize front, 1 + leadingBlanks behind⟩]
  /-- A backslash that joins the line to the next one. -/
  | joined {front behind : List Char} (joins : joinsLines behind = true) :
      Tiled n front ('\\' :: behind) []
  | blank {front behind : List Char} {c : Char} {ts : List Token} (isBlank : isBlank c = true)
      (others : Tiled n (front ++ [c]) behind ts) : Tiled n front (c :: behind) ts
  | token {front own behind : List Char} {kind : TokenKind} {ts : List Token}
      (lexeme : Lexeme own behind kind) (others : Tiled n (front ++ own) behind ts) :
      Tiled n front (own ++ behind)
        (⟨kind, .ofList own, n, byteSize front, byteSize own + leadingBlanks behind⟩ :: ts)

/-! ## The tokens of a line tile it -/

variable {n : Nat} {front rest own behind : List Char} {kind : TokenKind} {ts : List Token}

/-- A word at hand goes on to where it ends, and is closed there. -/
theorem lineTokens_some (col : Nat) (w : PartialWord) (cs : List Char) :
    ∃ more behind, cs = more ++ behind ∧ Each (inWord · · = true) more behind ∧
      EndsWord behind ∧
      lineTokens n (some w) col cs =
        PartialWord.close (some ⟨w.column, more.reverse ++ w.reversed⟩) n behind ++
          lineTokens n none (col + byteSize more) behind := by
  induction cs generalizing col w with
  | nil => exact ⟨[], [], rfl, trivial, nofun, rfl⟩
  | cons c cs ih =>
    cases inside : inWord c cs with
    | true =>
      obtain ⟨more, behind, rfl, each, stops, tokens⟩ :=
        ih (col + c.utf8Size) (PartialWord.extend (some w) col c)
      refine ⟨c :: more, behind, rfl, ⟨inside, each⟩, stops, ?_⟩
      rw [lineTokens, if_pos inside, tokens, byteSize_cons, Nat.add_assoc]
      simp [PartialWord.extend]
    | false =>
      refine ⟨[], c :: cs, rfl, trivial, ?_, ?_⟩
      · rintro _ _ ⟨⟩
        exact inside
      · rw [lineTokens, lineTokens, inside]
        rfl

theorem joinsLines_of_not_inWord {cs : List Char} (outside : inWord '\\' cs = false) :
    joinsLines cs = true := by
  rw [inWord] at outside
  simpa [isDelimiter, isBlank] using outside

theorem isDelimiter_of_not_inWord {c : Char} {cs : List Char} (outside : inWord c cs = false)
    (noSlash : c ≠ '\\') : isDelimiter c = true := by
  simpa [inWord, noSlash] using outside

/-- Where no word goes on, a tile follows. -/
theorem tiled_of_not_inWord {c : Char} {cs : List Char} (outside : inWord c cs = false)
    (ih : ∀ front, Tiled n front cs (lineTokens n none (byteSize front) cs)) (front : List Char) :
    Tiled n front (c :: cs) (lineTokens n none (byteSize front) (c :: cs)) := by
  have others : Tiled n (front ++ [c]) cs
      (lineTokens n none (byteSize front + c.utf8Size) cs) := by
    simpa using ih (front ++ [c])
  rw [lineTokens, outside]
  simp only [Bool.false_eq_true, if_false, PartialWord.close, List.nil_append]
  split
  next isBlank =>
    rw [utf8Size_of_isBlank isBlank] at others
    exact .blank isBlank others
  next noBlank =>
    split
    next isNewline =>
      subst isNewline
      exact .newline
    next noNewline =>
      split
      next isComment =>
        subst isComment
        exact .comment
      next noComment =>
        split
        next isSlash =>
          subst isSlash
          exact .joined (joinsLines_of_not_inWord outside)
        next noSlash =>
          have delimiter := isDelimiter_of_not_inWord outside noSlash
          simp only [isDelimiter, noBlank, noNewline, noComment, decide_false, Bool.or_false,
            Bool.false_or, Bool.or_eq_true, decide_eq_true_eq] at delimiter
          rcases delimiter with (rfl | rfl) | rfl
          · exact .token .comma others
          · exact .token .leftParen others
          · exact .token .rightParen others

theorem tiled_lineTokens (n : Nat) (front cs : List Char) :
    Tiled n front cs (lineTokens n none (byteSize front) cs) := by
  induction h : cs.length using Nat.strongRecOn generalizing front cs with
  | ind size ih =>
    cases cs with
    | nil => exact .finish
    | cons c cs =>
      cases inside : inWord c cs with
      | true =>
        obtain ⟨more, behind, rfl, each, stops, tokens⟩ :=
          lineTokens_some (n := n) (byteSize front + c.utf8Size)
            (PartialWord.extend none (byteSize front) c) cs
        have others := ih behind.length (by simp at h; omega) (front ++ c :: more) behind rfl
        have tile := Tiled.token (.word (List.cons_ne_nil c more) ⟨inside, each⟩ stops) others
        rw [lineTokens, if_pos inside, tokens]
        simpa [PartialWord.close, PartialWord.extend, utf8ByteSize_ofList, Nat.add_assoc] using tile
      | false => exact tiled_of_not_inWord inside (fun front => ih _ (by simp [← h]) front cs rfl) front

/-- The tokens of a line tile it. -/
theorem tiled_ofLine (n : Nat) (l : String) : Tiled n [] l.toList (Token.ofLine n l) :=
  tiled_lineTokens n [] l.toList

/-! ## Blanks between tokens -/

/-- Between two bytes of a line there is nothing but blanks. -/
def Blanks (line : String) (start stop : Nat) : Prop :=
  ∃ gap, sliceOf? line start stop = some gap ∧ ∀ c ∈ gap.toList, isBlank c = true

theorem leadingBlanks_cons_of_blank {c : Char} (blank : isBlank c = true) (cs : List Char) :
    leadingBlanks (c :: cs) = 1 + leadingBlanks cs := by
  simp [leadingBlanks, blank, Nat.add_comm]

theorem leadingBlanks_cons_of_not_blank {c : Char} (noBlank : isBlank c = false)
    (cs : List Char) : leadingBlanks (c :: cs) = 0 := by
  simp [leadingBlanks, noBlank]

theorem byteSize_takeWhile_isBlank (cs : List Char) :
    byteSize (cs.takeWhile isBlank) = leadingBlanks cs := by
  induction cs with
  | nil => rfl
  | cons c cs ih =>
    cases blank : isBlank c with
    | true =>
      rw [List.takeWhile_cons_of_pos blank, byteSize_cons, ih, utf8Size_of_isBlank blank,
        leadingBlanks_cons_of_blank blank]
    | false =>
      rw [List.takeWhile_cons_of_neg (by simp [blank]), leadingBlanks_cons_of_not_blank blank,
        byteSize_nil]

theorem blanks_ofList (front rest : List Char) :
    Blanks (.ofList (front ++ rest)) (byteSize front) (byteSize front + leadingBlanks rest) := by
  refine ⟨.ofList (rest.takeWhile isBlank), ?_, ?_⟩
  · have part := sliceOf?_ofList front (rest.takeWhile isBlank) (rest.dropWhile isBlank)
    rwa [List.takeWhile_append_dropWhile, byteSize_takeWhile_isBlank] at part
  · intro c mem
    rw [String.toList_ofList] at mem
    exact List.mem_takeWhile_imp mem

/-! ## What a lexeme is -/

/-- The character starts no comment, ends no line and joins none. -/
def Plain (c : Char) (behind : List Char) : Prop :=
  c ≠ '#' ∧ c ≠ '\n' ∧ (c = '\\' → joinsLines behind = false)

theorem plain_of_inWord {c : Char} {cs : List Char} (inside : inWord c cs = true) :
    Plain c cs ∧ isDelimiter c = false := by
  simp only [inWord, Bool.and_eq_true, Bool.not_eq_true', Bool.and_eq_false_iff,
    decide_eq_false_iff_not] at inside
  obtain ⟨noDelimiter, noJoin⟩ := inside
  refine ⟨⟨?_, ?_, fun slash => noJoin.resolve_left (not_not_intro slash)⟩, noDelimiter⟩
  · rintro rfl
    cases noDelimiter
  · rintro rfl
    cases noDelimiter

theorem plain_of_isBlank {c : Char} (blank : isBlank c = true) (behind : List Char) :
    Plain c behind := by
  refine ⟨?_, ?_, ?_⟩
  · rintro rfl
    cases blank
  · rintro rfl
    cases blank
  · rintro rfl
    cases blank

namespace Lexeme

theorem plain (h : Lexeme own behind kind) : Each Plain own behind := by
  cases h with
  | comma => exact ⟨⟨by decide, by decide, nofun⟩, trivial⟩
  | leftParen => exact ⟨⟨by decide, by decide, nofun⟩, trivial⟩
  | rightParen => exact ⟨⟨by decide, by decide, nofun⟩, trivial⟩
  | word _ inside => exact inside.imp fun c cs inWord => (plain_of_inWord inWord).1

theorem noBreak (h : Lexeme own behind kind) : kind.isBreak = false := by
  cases h with
  | comma => rfl
  | leftParen => rfl
  | rightParen => rfl
  | word => exact isBreak_wordKind _

/-- A lexeme starts with no blank. -/
theorem leadingBlanks_eq (h : Lexeme own behind kind) : leadingBlanks (own ++ behind) = 0 := by
  cases h with
  | comma => rfl
  | leftParen => rfl
  | rightParen => rfl
  | word some inside =>
    obtain ⟨c, cs, rfl⟩ := List.exists_cons_of_ne_nil some
    exact leadingBlanks_cons_of_not_blank
      (not_blank_of_not_delimiter (plain_of_inWord inside.1).2).1 _

end Lexeme

/-! ## Where tokens stand -/

namespace Tiled

/-- A token has its text at its column. -/
theorem text (h : Tiled n front rest ts) {t : Token} (mem : t ∈ ts) :
    t.line = n ∧ sliceOf? (.ofList (front ++ rest)) t.column
      (t.column + t.text.utf8ByteSize) = some t.text := by
  induction h with
  | finish =>
    rw [List.mem_singleton.mp mem]
    exact ⟨rfl, sliceOf?_ofList _ [] []⟩
  | @newline front behind =>
    rw [List.mem_singleton.mp mem]
    exact ⟨rfl, sliceOf?_ofList front ['\n'] behind⟩
  | @comment front behind =>
    rw [List.mem_singleton.mp mem]
    exact ⟨rfl, sliceOf?_ofList front ['#'] behind⟩
  | joined => cases mem
  | blank _ _ ih => simpa using ih mem
  | @token front own behind kind ts lexeme _ ih =>
    rcases List.mem_cons.mp mem with rfl | mem
    · exact ⟨rfl, sliceOf?_ofList front own behind⟩
    · simpa using ih mem

/-- In front of the first token there are blanks. -/
theorem head (h : Tiled n front rest ts) {t : Token} (first : t ∈ ts.head?) :
    t.column = byteSize front + leadingBlanks rest := by
  induction h with
  | finish =>
    cases first
    rfl
  | newline =>
    cases first
    rfl
  | comment =>
    cases first
    rfl
  | joined => cases first
  | blank isBlank _ ih =>
    rw [ih first, leadingBlanks_cons_of_blank isBlank, byteSize_append, byteSize_cons,
      utf8Size_of_isBlank isBlank, byteSize_nil, Nat.add_assoc]
  | token lexeme =>
    cases first
    rw [lexeme.leadingBlanks_eq]
    rfl

/-- The stride of a token leads to the next one, and there are blanks between them. -/
theorem apart (h : Tiled n front rest ts) :
    ts.IsChain fun t u => t.column + t.stride = u.column ∧
      Blanks (.ofList (front ++ rest)) (t.column + t.text.utf8ByteSize) u.column := by
  induction h with
  | finish => exact .singleton _
  | newline => exact .singleton _
  | comment => exact .singleton _
  | joined => exact .nil
  | blank _ _ ih => simpa using ih
  | @token front own behind kind ts _ others ih =>
    rw [List.isChain_cons]
    constructor
    · intro u first
      have blanks := blanks_ofList (front ++ own) behind
      rw [others.head first]
      rw [List.append_assoc] at blanks
      rw [byteSize_append] at blanks ⊢
      exact ⟨(Nat.add_assoc ..).symm, blanks⟩
    · simpa using ih

end Tiled

/-! ## How a line ends -/

/-- The line has a newline at its end at most. -/
def NewlineLast (line : List Char) : Prop := '\n' ∉ line.dropLast

instance (line : List Char) : Decidable (NewlineLast line) := inferInstanceAs (Decidable (_ ∉ _))

theorem eq_nil_of_newlineLast (h : NewlineLast (front ++ '\n' :: behind)) : behind = [] := by
  cases behind with
  | nil => rfl
  | cons c behind =>
    rw [NewlineLast, List.dropLast_append_of_ne_nil (List.cons_ne_nil _ _)] at h
    exact absurd (by simp) h

/-- A backslash joins the line to the next one. -/
def Joins (line : List Char) : Prop :=
  ∃ front behind, line = front ++ '\\' :: behind ∧ joinsLines behind = true

/-- The last token says how the line ends, and no other token is a break. -/
inductive EndsLine (line : List Char) : List Token → Prop where
  /-- At the first `#` a comment starts. -/
  | comment {front behind : List Char} {inner : List Token} {t : Token}
      (whole : line = front ++ '#' :: behind) (first : '#' ∉ front)
      (last : t.kind = .comment ∧ t.text = "#" ∧ t.column = byteSize front)
      (others : ∀ u ∈ inner, u.kind.isBreak = false) : EndsLine line (inner ++ [t])
  /-- A line that ends in its newline. -/
  | newline {front : List Char} {inner : List Token} {t : Token}
      (whole : line = front ++ ['\n']) (noComment : '#' ∉ line) (goesOn : ¬ Joins line)
      (last : t.kind = .lineBreak ∧ t.text = "\n" ∧ t.column = byteSize front)
      (others : ∀ u ∈ inner, u.kind.isBreak = false) : EndsLine line (inner ++ [t])
  /-- A line without a newline. -/
  | unterminated {inner : List Token} {t : Token} (noNewline : '\n' ∉ line)
      (noComment : '#' ∉ line) (goesOn : ¬ Joins line)
      (last : t.kind = .lineBreak ∧ t.text = "" ∧ t.column = byteSize line)
      (others : ∀ u ∈ inner, u.kind.isBreak = false) : EndsLine line (inner ++ [t])
  /-- A line that is joined to the next one has no last token, with its newline or without. -/
  | joined {front behind : List Char} {inner : List Token}
      (whole : line = front ++ '\\' :: behind) (noComment : '#' ∉ line)
      (joins : joinsLines behind = true)
      (others : ∀ u ∈ inner, u.kind.isBreak = false) : EndsLine line inner

theorem EndsLine.cons {line : List Char} (h : EndsLine line ts) {t : Token}
    (noBreak : t.kind.isBreak = false) : EndsLine line (t :: ts) := by
  cases h with
  | comment whole first last others =>
    exact @EndsLine.comment _ _ _ (t :: _) _ whole first last (List.forall_mem_cons.mpr ⟨noBreak, others⟩)
  | newline whole noComment goesOn last others =>
    exact @EndsLine.newline _ _ (t :: _) _ whole noComment goesOn last
      (List.forall_mem_cons.mpr ⟨noBreak, others⟩)
  | unterminated noNewline noComment goesOn last others =>
    exact @EndsLine.unterminated _ (t :: _) _ noNewline noComment goesOn last
      (List.forall_mem_cons.mpr ⟨noBreak, others⟩)
  | joined whole noComment joins others =>
    exact .joined whole noComment joins (List.forall_mem_cons.mpr ⟨noBreak, others⟩)

theorem Each.not_mem (h : Each Plain front rest) : '#' ∉ front ∧ '\n' ∉ front := by
  induction front with
  | nil => simp
  | cons c front ih =>
    obtain ⟨⟨noComment, noNewline, -⟩, others⟩ := h
    obtain ⟨noComments, noNewlines⟩ := ih others
    simp [Ne.symm noComment, Ne.symm noNewline, noComments, noNewlines]

/-- No backslash joins a line of plain characters. -/
theorem Each.not_joins (h : Each Plain front rest)
    (behind : Each (fun c cs => c = '\\' → joinsLines cs = false) rest []) :
    ¬ Joins (front ++ rest) := by
  rintro ⟨a, b, whole, joins⟩
  have none : Each (fun c cs => c = '\\' → joinsLines cs = false) (front ++ rest) [] := by
    rw [each_append, List.append_nil]
    exact ⟨h.imp fun _ _ plain => plain.2.2, behind⟩
  rw [whole] at none
  have noJoin := none.of_append rfl
  rw [List.append_nil, joins] at noJoin
  cases noJoin

theorem not_mem_of_joinsLines (joins : joinsLines behind = true) : '#' ∉ behind := by
  intro mem
  have blank := List.all_eq_true.mp joins _ mem
  cases blank

/-- Behind plain characters the tokens end the line. -/
theorem Tiled.endsLine (h : Tiled n front rest ts) (plain : Each Plain front rest)
    (newlineLast : NewlineLast (front ++ rest)) : EndsLine (front ++ rest) ts := by
  induction h with
  | @finish front =>
    have goesOn := plain.not_joins trivial
    obtain ⟨noComment, noNewline⟩ := plain.not_mem
    rw [List.append_nil] at goesOn ⊢
    exact @EndsLine.unterminated _ [] _ noNewline noComment goesOn ⟨rfl, rfl, rfl⟩ nofun
  | @newline front behind =>
    obtain rfl := eq_nil_of_newlineLast newlineLast
    have goesOn := plain.not_joins ⟨nofun, trivial⟩
    have noComment := plain.not_mem.1
    exact @EndsLine.newline _ _ [] _ rfl (by simpa using noComment) goesOn ⟨rfl, rfl, rfl⟩ nofun
  | comment =>
    exact @EndsLine.comment _ _ _ [] _ rfl plain.not_mem.1 ⟨rfl, rfl, rfl⟩ nofun
  | joined joins =>
    have noComment := plain.not_mem.1
    refine .joined rfl ?_ joins nofun
    simpa [not_mem_of_joinsLines joins] using noComment
  | @blank front behind c ts isBlank _ ih =>
    have whole : front ++ c :: behind = front ++ [c] ++ behind := by simp
    rw [whole] at newlineLast ⊢
    exact ih (each_append.mpr ⟨plain, plain_of_isBlank isBlank _, trivial⟩) newlineLast
  | @token front own behind kind ts lexeme _ ih =>
    rw [← List.append_assoc] at newlineLast ⊢
    exact (ih (each_append.mpr ⟨plain, lexeme.plain⟩) newlineLast).cons lexeme.noBreak

/-- The byte behind the last token, or `start` where there is none. -/
def lastStop (start : Nat) (ts : List Token) : Nat :=
  (ts.getLast?.map fun t => t.column + t.text.utf8ByteSize).getD start

theorem lastStop_cons (start : Nat) (t : Token) (ts : List Token) :
    lastStop start (t :: ts) = lastStop (t.column + t.text.utf8ByteSize) ts := by
  cases ts with
  | nil => rfl
  | cons u ts => simp [lastStop, List.getLast?_cons]

/-- Without a token there are blanks, and then a backslash. -/
theorem Tiled.eq_of_nil (h : Tiled n front rest []) :
    ∃ behind, rest.dropWhile isBlank = '\\' :: behind ∧ joinsLines behind = true := by
  generalize none : ([] : List Token) = ts at h
  induction h with
  | finish => cases none
  | newline => cases none
  | comment => cases none
  | joined joins => exact ⟨_, rfl, joins⟩
  | blank isBlank _ ih => simpa [isBlank] using ih none
  | token => cases none

theorem Tiled.tail_of_nil (h : Tiled n front rest []) :
    ∃ before behind, front ++ rest = before ++ '\\' :: behind ∧ joinsLines behind = true ∧
      Blanks (.ofList (front ++ rest)) (byteSize front) (byteSize before) := by
  obtain ⟨behind, dropped, joins⟩ := h.eq_of_nil
  refine ⟨front ++ rest.takeWhile isBlank, behind, ?_, joins, ?_⟩
  · rw [← dropped, List.append_assoc, List.takeWhile_append_dropWhile]
  · rw [byteSize_append, byteSize_takeWhile_isBlank]
    exact blanks_ofList front rest

/-- Where no break ends the line, there are blanks from the last token to the backslash. -/
theorem Tiled.tail (h : Tiled n front rest ts) (noBreak : ∀ t ∈ ts, t.kind.isBreak = false) :
    ∃ before behind, front ++ rest = before ++ '\\' :: behind ∧ joinsLines behind = true ∧
      Blanks (.ofList (front ++ rest)) (lastStop (byteSize front) ts) (byteSize before) := by
  induction h with
  | finish => cases noBreak _ List.mem_cons_self
  | newline => cases noBreak _ List.mem_cons_self
  | comment => cases noBreak _ List.mem_cons_self
  | joined joins => exact Tiled.tail_of_nil (n := n) (.joined joins)
  | @blank front behind c ts isBlank others ih =>
    cases ts with
    | nil => exact (Tiled.blank isBlank others).tail_of_nil
    | cons t ts =>
      have found := ih noBreak
      rw [List.append_assoc, List.singleton_append, lastStop_cons] at found
      rwa [lastStop_cons]
  | @token front own behind kind ts _ _ ih =>
    have found := ih (List.forall_mem_cons.mp noBreak).2
    rw [byteSize_append, List.append_assoc] at found
    rw [lastStop_cons]
    exact found

/-! ## Words -/

theorem wordKind_eq_iff (word : String) :
    (wordKind word = .fromWord ↔ word = "from") ∧
      (wordKind word = .importWord ↔ word = "import") ∧ (wordKind word = .asWord ↔ word = "as") := by
  unfold wordKind
  split
  next isFrom => simp [isFrom]
  next noFrom =>
    split
    next isImport => simp [isImport]
    next noImport =>
      split
      next isAs => simp [isAs]
      next noAs => simp [noFrom, noImport, noAs]

/-- The token is a word of a line, between these characters. -/
structure Token.WordOf (line before : List Char) (t : Token) (behind : List Char) : Prop where
  whole : line = before ++ (t.text.toList ++ behind)
  column : t.column = byteSize before
  word : ImportTidy.IsWord t.text
  /-- No backslash in it joins the line to the next one. -/
  backslashes : ∀ a b, t.text.toList = a ++ '\\' :: b → joinsLines (b ++ behind) = false
  /-- It stops at the end of the line, at a delimiter, or at a backslash that joins lines. -/
  stops : behind = [] ∨ ∃ c cs, behind = c :: cs ∧
    (isDelimiter c = true ∨ c = '\\' ∧ joinsLines cs = true)
  keyword : (t.kind = .fromWord ↔ t.text = "from") ∧ (t.kind = .importWord ↔ t.text = "import") ∧
    (t.kind = .asWord ↔ t.text = "as")

theorem stops_of_endsWord (h : EndsWord behind) :
    behind = [] ∨ ∃ c cs, behind = c :: cs ∧
      (isDelimiter c = true ∨ c = '\\' ∧ joinsLines cs = true) := by
  cases behind with
  | nil => exact .inl rfl
  | cons c cs =>
    refine .inr ⟨c, cs, rfl, ?_⟩
    have outside := h c cs rfl
    by_cases slash : c = '\\'
    · subst slash
      exact .inr ⟨rfl, joinsLines_of_not_inWord outside⟩
    · exact .inl (isDelimiter_of_not_inWord outside slash)

theorem Each.isDelimiter (h : Each (inWord · · = true) own behind) :
    ∀ c ∈ own, isDelimiter c = false := by
  induction own with
  | nil => simp
  | cons c own ih =>
    exact List.forall_mem_cons.mpr ⟨(plain_of_inWord h.1).2, ih h.2⟩

/-- A token that is no break is a word or a delimiter. -/
theorem Tiled.inner (h : Tiled n front rest ts) {t : Token} (mem : t ∈ ts)
    (noBreak : t.kind.isBreak = false) :
    (t.kind = .comma ∧ t.text = "," ∨ t.kind = .leftParen ∧ t.text = "(" ∨
        t.kind = .rightParen ∧ t.text = ")") ∨
      t.kind.isWord = true ∧ ∃ before behind, t.WordOf (front ++ rest) before behind := by
  induction h with
  | finish =>
    rw [List.mem_singleton.mp mem] at noBreak
    cases noBreak
  | newline =>
    rw [List.mem_singleton.mp mem] at noBreak
    cases noBreak
  | comment =>
    rw [List.mem_singleton.mp mem] at noBreak
    cases noBreak
  | joined => cases mem
  | blank _ _ ih => simpa using ih mem
  | @token front own behind kind ts lexeme _ ih =>
    rcases List.mem_cons.mp mem with rfl | mem
    · cases lexeme with
      | comma => exact .inl (.inl ⟨rfl, rfl⟩)
      | leftParen => exact .inl (.inr (.inl ⟨rfl, rfl⟩))
      | rightParen => exact .inl (.inr (.inr ⟨rfl, rfl⟩))
      | word some inside stops =>
        refine .inr ⟨?_, front, behind, ?_⟩
        · rw [wordKind]
          split
          · rfl
          · split
            · rfl
            · split <;> rfl
        · refine ⟨?_, rfl, ⟨?_, ?_⟩, ?_, stops_of_endsWord stops, wordKind_eq_iff _⟩
          · rw [String.toList_ofList]
          · rwa [String.toList_ofList]
          · rw [String.toList_ofList]
            exact inside.isDelimiter
          · intro a b slash
            rw [String.toList_ofList] at slash
            rw [slash] at inside
            exact (plain_of_inWord inside.of_append).1.2.2 rfl
    · simpa using ih mem

/-! ## Lines -/

/-- These tokens are all there is in the line of this number. -/
structure SplitLine (n : Nat) (line : String) (ts : List Token) : Prop where
  /-- A token stands on the line, and its text is what the line has at its column. -/
  text : ∀ t ∈ ts, t.line = n ∧
    sliceOf? line t.column (t.column + t.text.utf8ByteSize) = some t.text
  /-- In front of the first token there are blanks. -/
  head : ∀ t ∈ ts.head?, Blanks line 0 t.column
  /-- The stride of a token leads to the next one, and there are blanks between them. -/
  apart : ts.IsChain fun t u => t.column + t.stride = u.column ∧
    Blanks line (t.column + t.text.utf8ByteSize) u.column
  ends : EndsLine line.toList ts
  /-- Where no break ends the line, there are blanks up to the backslash that joins it. -/
  tail : (∀ t ∈ ts, t.kind.isBreak = false) → ∃ before behind,
    line.toList = before ++ '\\' :: behind ∧ joinsLines behind = true ∧
      Blanks line (lastStop 0 ts) (byteSize before)
  /-- A token that is no break is a delimiter or a word. -/
  inner : ∀ t ∈ ts, t.kind.isBreak = false →
    (t.kind = .comma ∧ t.text = "," ∨ t.kind = .leftParen ∧ t.text = "(" ∨
        t.kind = .rightParen ∧ t.text = ")") ∨
      t.kind.isWord = true ∧ ∃ before behind, t.WordOf line.toList before behind

/-- A line with no newline inside is split without loss. -/
theorem splitLine_ofLine (n : Nat) {l : String} (newlineLast : NewlineLast l.toList) :
    SplitLine n l (Token.ofLine n l) := by
  have tiled := tiled_ofLine n l
  have whole : String.ofList ([] ++ l.toList) = l := String.ofList_toList
  have text := fun t (mem : t ∈ Token.ofLine n l) => tiled.text mem
  have blanks := blanks_ofList [] l.toList
  have apart := tiled.apart
  have tail := tiled.tail
  rw [whole] at text blanks apart tail
  refine ⟨text, fun t first => ?_, apart, tiled.endsLine trivial newlineLast, tail,
    fun t mem => tiled.inner mem⟩
  rwa [← tiled.head first] at blanks

end ImportTidy
