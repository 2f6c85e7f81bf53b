import ImportTidy.Proofs.Readable

/-!
# What is read has no more backslashes than the text

A backslash at the end of a line belongs to no token.  Every other character stands in at
most one.  So the tokens of a line hold at most its backslashes, and fewer if the last
character is one (`slashesOf_ofLine`).

The count goes down or stays from there on: from tokens to statements, since a statement
has the texts of its own tokens, and from statements to blocks, since a block has each text
once.  Rendering keeps it, since a layout adds no backslash.
-/

namespace ImportTidy

/-- The number of backslashes. -/
def slashes (s : String) : Nat := s.toList.count '\\'

@[simp] theorem slashes_append (s t : String) : slashes (s ++ t) = slashes s + slashes t := by
  simp [slashes]

/-- What a layout puts between names, and around them. -/
theorem slashes_sign {s : String}
    (h : s ∈ ["\n", ",", ", ", "(", ")", " as ", "from ", " import ", "import "]) :
    slashes s = 0 := by
  revert s
  decide +kernel

/-- The number of backslashes of several texts. -/
def slashesIn : List String → Nat
  | [] => 0
  | s :: ss => slashes s + slashesIn ss

@[simp] theorem slashesIn_nil : slashesIn [] = 0 := rfl

@[simp] theorem slashesIn_cons (s : String) (ss : List String) :
    slashesIn (s :: ss) = slashes s + slashesIn ss := rfl

@[simp] theorem slashesIn_append (ss ss' : List String) :
    slashesIn (ss ++ ss') = slashesIn ss + slashesIn ss' := by
  induction ss with
  | nil => simp
  | cons s ss ih => simp [ih, Nat.add_assoc]

/-- Their order does not matter. -/
theorem slashesIn_perm {ss ss' : List String} (h : ss.Perm ss') : slashesIn ss = slashesIn ss' := by
  induction h with
  | nil => rfl
  | cons s _ ih => rw [slashesIn_cons, slashesIn_cons, ih]
  | swap s t ss =>
    simp only [slashesIn_cons]
    omega
  | trans _ _ ih ih' => exact ih.trans ih'

theorem slashesIn_eq_zero {ss : List String} (h : ∀ s ∈ ss, '\\' ∉ s.toList) :
    slashesIn ss = 0 := by
  induction ss with
  | nil => rfl
  | cons s ss ih =>
    obtain ⟨first, others⟩ := List.forall_mem_cons.mp h
    rw [slashesIn_cons, ih others, slashes, List.count_eq_zero.mpr first]

/-! ## Lines -/

/-- The number of backslashes of tokens. -/
def slashesOf (ts : List Token) : Nat := slashesIn (ts.map Token.text)

@[simp] theorem slashesOf_append (ts ts' : List Token) :
    slashesOf (ts ++ ts') = slashesOf ts + slashesOf ts' := by
  simp [slashesOf]

/-- The number of backslashes of the word at hand. -/
def PartialWord.slashes : Option PartialWord → Nat
  | none => 0
  | some w => w.reversed.count '\\'

theorem slashesOf_close (word : Option PartialWord) (n : Nat) (behind : List Char) :
    slashesOf (PartialWord.close word n behind) = PartialWord.slashes word := by
  cases word with
  | none => rfl
  | some w => simp [PartialWord.close, slashesOf, PartialWord.slashes, slashes]

theorem PartialWord.slashes_extend (word : Option PartialWord) (col : Nat) (c : Char) :
    PartialWord.slashes (some (PartialWord.extend word col c)) =
      PartialWord.slashes word + [c].count '\\' := by
  cases word with
  | none => simp [PartialWord.extend, PartialWord.slashes]
  | some w =>
    simp only [PartialWord.extend, PartialWord.slashes, List.count_cons, List.count_nil]
    omega

/-- The tokens hold the backslashes of the word at hand and of the characters, at most. -/
theorem slashesOf_lineTokens {n : Nat} {tail : List Char}
    (ending : ∀ word col, slashesOf (lineTokens n word col tail) ≤ PartialWord.slashes word)
    (word : Option PartialWord) (col : Nat) (cs : List Char) :
    slashesOf (lineTokens n word col (cs ++ tail)) ≤ PartialWord.slashes word + cs.count '\\' := by
  induction cs generalizing word col with
  | nil => simpa using ending word col
  | cons c cs ih =>
    rw [List.cons_append]
    by_cases inside : inWord c (cs ++ tail) = true
    · have rest := ih (some (PartialWord.extend word col c)) (col + c.utf8Size)
      rw [lineTokens, if_pos inside]
      rw [PartialWord.slashes_extend] at rest
      rw [List.count_cons]
      simp only [List.count_cons, List.count_nil] at rest
      omega
    · obtain ⟨own, more, tokens, noSlash, rest⟩ :=
        lineTokens_stop (Bool.eq_false_iff.mpr inside) n col word
      have ownSlashes : slashesOf own = 0 := slashesIn_eq_zero fun s hs => by
        obtain ⟨t, ht, rfl⟩ := List.mem_map.mp hs
        exact (noSlash t ht).2
      have moreSlashes : slashesOf more ≤ cs.count '\\' := by
        rcases rest with rfl | rfl
        · exact Nat.zero_le _
        · simpa [PartialWord.slashes] using ih none (col + 1)
      rw [tokens, slashesOf_append, slashesOf_append, slashesOf_close, ownSlashes, List.count_cons]
      omega

/-- A line has at least the backslashes of its tokens, and one more if it ends in one. -/
theorem slashesOf_ofLine (n : Nat) (l : String) :
    slashesOf (Token.ofLine n (l ++ "\n")) ≤ slashes l ∧
      (EndsInBackslash l → slashesOf (Token.ofLine n (l ++ "\n")) < slashes l) := by
  have bound : ∀ tail : List Char,
      (∀ word col, slashesOf (lineTokens n word col tail) ≤ PartialWord.slashes word) →
      ∀ cs, (l ++ "\n").toList = cs ++ tail →
        slashesOf (Token.ofLine n (l ++ "\n")) ≤ cs.count '\\' := by
    intro tail ending cs chars
    have counted := slashesOf_lineTokens ending none 0 cs
    rw [Token.ofLine, chars]
    simpa [PartialWord.slashes] using counted
  constructor
  · refine bound ['\n'] (fun word col => ?_) l.toList (by simp)
    have tokens : lineTokens n word col ['\n'] =
        PartialWord.close word n ['\n'] ++ [⟨.lineBreak, "\n", n, col, 1⟩] := rfl
    have lineBreak : slashesOf [⟨.lineBreak, "\n", n, col, 1⟩] = 0 := slashes_sign (by simp)
    rw [tokens, slashesOf_append, slashesOf_close]
    omega
  · intro ends
    obtain ⟨front, chars⟩ := List.getLast?_eq_some_iff.mp ends
    have fewer := bound ['\\', '\n'] (fun word col => ?_) front (by simp [chars])
    · have count : slashes l = front.count '\\' + 1 := by
        simp [slashes, chars]
      omega
    · have tokens : lineTokens n word col ['\\', '\n'] =
          PartialWord.close word n ['\\', '\n'] ++ [] := rfl
      rw [tokens, List.append_nil]
      exact Nat.le_of_eq (slashesOf_close word n _)

/-- Lines have at least the backslashes of their tokens, and more if one of them ends in one. -/
theorem slashesOf_tokensBehind (n : Nat) (ls : List String) :
    slashesOf (tokensBehind n ls) ≤ slashesIn ls ∧
      ((∃ l ∈ ls, EndsInBackslash l) → slashesOf (tokensBehind n ls) < slashesIn ls) := by
  induction ls generalizing n with
  | nil => exact ⟨Nat.le_refl _, nofun⟩
  | cons l ls ih =>
    obtain ⟨own, ownEnds⟩ := slashesOf_ofLine (n + 1) l
    obtain ⟨rest, restEnds⟩ := ih (n + 1)
    rw [tokensBehind, slashesOf_append, slashesIn_cons]
    refine ⟨Nat.add_le_add own rest, ?_⟩
    rintro ⟨l', mem, ends⟩
    rcases List.mem_cons.mp mem with rfl | mem
    · exact Nat.add_lt_add_of_lt_of_le (ownEnds ends) rest
    · exact Nat.add_lt_add_of_le_of_lt own (restEnds ⟨l', mem, ends⟩)

/-! ## Statements -/

/-- The texts of statements, those of their sources included. -/
def textsIn (S : List Statement) : List String := S.flatMap fun st => st.origin.texts ++ st.texts

/-- The number of backslashes of a stream. -/
def TokenStream.slashes : TokenStream → Nat
  | .finish _ => 0
  | .token t rest => ImportTidy.slashes t.text + rest.slashes
  | .failed _ _ rest => rest.slashes

theorem TokenStream.slashes_ofTokens (ts : List Token) (rest : TokenStream) :
    (TokenStream.ofTokens ts rest).slashes = slashesOf ts + rest.slashes := by
  induction ts with
  | nil => simp [ofTokens, slashesOf]
  | cons t ts ih =>
    show ImportTidy.slashes t.text + (ofTokens ts rest).slashes = _
    rw [ih]
    simp [slashesOf, Nat.add_assoc]

theorem TokenStream.slashes_next {behind rest : TokenStream} {found : Except ReadError Token}
    (next : behind.next = (found, rest)) : rest.slashes ≤ behind.slashes := by
  cases behind with
  | finish line =>
    cases next
    exact Nat.le_refl _
  | token t rest' =>
    cases next
    exact Nat.le_add_left _ _
  | failed n e rest' =>
    cases next
    exact Nat.le_refl _

namespace Grammar

/-- The number of backslashes of words. -/
def slashesOfWords (ws : List Word) : Nat := slashesIn (ws.map Word.text)

@[simp] theorem slashesOfWords_append (ws ws' : List Word) :
    slashesOfWords (ws ++ ws') = slashesOfWords ws + slashesOfWords ws' := by
  simp [slashesOfWords]

@[simp] theorem slashesOfWords_cons (w : Word) (ws : List Word) :
    slashesOfWords (w :: ws) = slashes w.text + slashesOfWords ws := by
  simp [slashesOfWords]

theorem slashesOfWords_wordsOf (ts : List Token) : slashesOfWords (wordsOf ts) = slashesOf ts := by
  rw [slashesOfWords, wordsOf, List.map_map]
  rfl

theorem slashesOfWords_withoutBreaks (ws : List Word) :
    slashesOfWords (withoutBreaks ws) ≤ slashesOfWords ws := by
  induction ws with
  | nil => exact Nat.le_refl _
  | cons w ws ih =>
    rw [withoutBreaks, List.filter_cons, ← withoutBreaks]
    split <;> simp <;> omega

theorem SpellsEntry.slashes_le {e : Entry} {ws : List Word} (h : SpellsEntry e ws) :
    slashes e.text ≤ slashesOfWords ws := by
  cases h with
  | name => simp [Entry.text]
  | @renamed n a w =>
    have joint : slashes " as " = 0 := slashes_sign (by simp)
    simp only [Entry.text, slashes_append, slashesOfWords_cons, joint]
    omega

theorem SpellsEntries.slashes_le {es : List Entry} {ws : List Word} (h : SpellsEntries es ws) :
    slashesIn (es.map Entry.text) ≤ slashesOfWords ws := by
  induction h with
  | one entry => simpa using entry.slashes_le
  | more _ _ entry ih =>
    have own := entry.slashes_le
    simp
    omega

theorem SpellsList.slashes_le {es : List Entry} {ws : List Word} {next : Word}
    (h : SpellsList es ws next) : slashesIn (es.map Entry.text) ≤ slashesOfWords ws := by
  cases h with
  | bare entries => exact entries.slashes_le
  | @enclosed inner trailing body _ _ _ _ entries _ between _ =>
    have own := entries.slashes_le
    have inBody := slashesOfWords_withoutBreaks body
    rw [between, slashesOfWords_append] at inBody
    simp
    omega

theorem SpellsLead.slashes_le {o : Origin} {ws : List Word} (h : SpellsLead o ws) :
    slashesIn o.texts ≤ slashesOfWords ws := by
  cases h with
  | plain => exact Nat.zero_le _
  | source =>
    simp [Origin.texts]
    omega

theorem Spells.slashes_le {o : Origin} {es : List Entry} {ws : List Word} {next : Word}
    (h : Spells o es ws next) :
    slashesIn (o.texts ++ es.map Entry.text) ≤ slashesOfWords ws := by
  cases h with
  | intro start list =>
    rw [slashesOfWords_append, slashesIn_append]
    exact Nat.add_le_add start.slashes_le list.slashes_le

/-- Statements have at most the backslashes of the tokens they are read from. -/
theorem Reads.slashes_le {fresh : Bool} {tokens : TokenStream} {S : List Statement}
    {fault : Option SyntaxFault} (h : Reads fresh tokens S fault) :
    slashesIn (textsIn S) ≤ tokens.slashes := by
  induction h with
  | skip _ _ ih => exact Nat.le_trans ih (Nat.le_add_left _ _)
  | @statement first next ts behind rest o es S fault spelled ends _ ih =>
    have own := spelled.slashes_le
    have others := TokenStream.slashes_next ends
    rw [slashesOfWords_wordsOf] at own
    rw [TokenStream.slashes_ofTokens, textsIn, List.flatMap_cons, slashesIn_append]
    exact Nat.add_le_add own (Nat.le_trans ih others)
  | _ => exact Nat.zero_le _

end Grammar

/-! ## Blocks -/

theorem slashesIn_fresh_le (seen texts : List String) :
    slashesIn (fresh seen texts) ≤ slashesIn texts := by
  induction texts generalizing seen with
  | nil => exact Nat.le_refl _
  | cons t ts ih =>
    by_cases known : t ∈ seen
    · rw [fresh_cons_of_mem known, slashesIn_cons]
      exact Nat.le_trans (ih seen) (Nat.le_add_left _ _)
    · rw [fresh_cons_of_not_mem known, slashesIn_cons, slashesIn_cons]
      exact Nat.add_le_add_left (ih _) _

theorem slashesIn_addAt (i : Nat) (names : List String) (bs : List Block) :
    slashesIn (textsOfBlocks (Block.addAt i names bs)) ≤
      slashesIn (textsOfBlocks bs) + slashesIn names := by
  induction bs generalizing i with
  | nil => simp [Block.addAt, textsOfBlocks]
  | cons b bs ih =>
    cases i with
    | zero =>
      simp [Block.addAt]
      omega
    | succ i =>
      have rest := ih i
      simp only [Block.addAt, List.modify_succ_cons, textsOfBlocks_cons, slashesIn_append] at rest ⊢
      omega

/-- A statement adds at most its own backslashes. -/
theorem slashesIn_absorb (squash : Bool) (bs : List Block) (st : Statement) :
    slashesIn (textsOfBlocks (Block.absorb squash bs st)) ≤
      slashesIn (textsOfBlocks bs) + slashesIn (st.origin.texts ++ st.texts) := by
  have new := slashesIn_fresh_le (Block.seenBy squash st.origin bs) st.texts
  rw [Block.absorb, slashesIn_append]
  split
  next => omega
  next =>
    rw [Block.put]
    split
    next i _ =>
      have added := slashesIn_addAt i (fresh (Block.seenBy squash st.origin bs) st.texts) bs
      omega
    next =>
      simp [textsOfBlocks]
      omega

theorem slashesIn_foldl_absorb (squash : Bool) (bs : List Block) (S : List Statement) :
    slashesIn (textsOfBlocks (S.foldl (Block.absorb squash) bs)) ≤
      slashesIn (textsOfBlocks bs) + slashesIn (textsIn S) := by
  induction S generalizing bs with
  | nil => exact Nat.le_refl _
  | cons st S ih =>
    have first := slashesIn_absorb squash bs st
    have others := ih (Block.absorb squash bs st)
    rw [textsIn] at others
    rw [List.foldl_cons, textsIn, List.flatMap_cons, slashesIn_append]
    omega

/-! ## Rendering -/

theorem slashes_unlines (ls : List String) : slashes (unlines ls) = slashesIn ls := by
  induction ls with
  | nil => rfl
  | cons l ls ih =>
    have newline : slashes "\n" = 0 := slashes_sign (by simp)
    rw [unlines_cons, slashes_append, slashes_append, newline, ih, slashesIn_cons, Nat.add_zero]

theorem slashes_flat (names : List String) : slashes (Layout.flat names) = slashesIn names := by
  induction names with
  | nil => rfl
  | cons n names ih =>
    cases names with
    | nil => simp [Layout.flat]
    | cons m names =>
      have gap : slashes ", " = 0 := slashes_sign (by simp)
      rw [Layout.flat] at ih
      rw [Layout.flat, String.intercalate_cons_cons, slashes_append, slashes_append, gap, ih,
        slashesIn_cons n]
      rfl

theorem slashes_blanks (n : Nat) : slashes (Layout.blanks n) = 0 := by
  rw [slashes, Layout.blanks, String.toList_ofList, List.count_eq_zero]
  simp

theorem slashesIn_closed (front : String) (indent : Nat) (ls : List (List String)) :
    slashesIn (Layout.closed front indent ls) = slashes front + slashesIn ls.flatten := by
  have paren : slashes ")" = 0 := slashes_sign (by simp)
  have comma : slashes "," = 0 := slashes_sign (by simp)
  induction ls generalizing front with
  | nil => simp [Layout.closed, paren]
  | cons names ls ih =>
    cases ls with
    | nil => simp [Layout.closed, paren, slashes_flat]
    | cons more rest =>
      have flatten : (names :: more :: rest).flatten = names ++ (more :: rest).flatten := rfl
      rw [Layout.closed, slashesIn_cons, ih, flatten]
      simp only [slashes_append, slashes_flat, slashes_blanks, comma, slashesIn_append]
      omega

theorem slashes_leadOf (o : Origin) : slashes (Session.leadOf o.source?) = slashesIn o.texts := by
  cases o with
  | plain =>
    have import_ : slashes "import " = 0 := slashes_sign (by simp)
    exact import_
  | source m =>
    have from_ : slashes "from " = 0 := slashes_sign (by simp)
    have import_ : slashes " import " = 0 := slashes_sign (by simp)
    simp [Session.leadOf, Origin.source?, Origin.texts, from_, import_]

/-- The lines of a block have its backslashes. -/
theorem Block.slashesIn_lines (rule : WrapRule) (b : Block) :
    slashesIn (b.lines rule) = slashesIn (b.origin.texts ++ b.names) := by
  have sorted := slashesIn_perm (NaturalOrder.sort_perm b.names)
  rw [Block.lines, Layout.lines]
  split
  · have paren : slashes "(" = 0 := slashes_sign (by simp)
    rw [slashesIn_closed, Layout.flatten_wrapLines, slashes_append, slashes_leadOf, paren, sorted,
      slashesIn_append, Nat.add_zero]
  · simp [slashes_leadOf, slashes_flat, sorted]

/-- A rendered text has the backslashes of its blocks. -/
theorem slashes_renderBlocks (rule : WrapRule) (bs : List Block) :
    slashes (renderBlocks rule bs) = slashesIn (textsOfBlocks bs) := by
  rw [renderBlocks_eq_unlines, slashes_unlines]
  induction bs with
  | nil => rfl
  | cons b bs ih =>
    rw [List.flatMap_cons, slashesIn_append, ih, Block.slashesIn_lines, textsOfBlocks_cons,
      slashesIn_append (b.origin.texts ++ b.names)]

/-- Where a line ends in a backslash, what is read and rendered has fewer of them. -/
theorem slashes_render_lt {settings : SortSettings} {feed : Feed} {ls : List String}
    (lines : feed = ls.map fun l => .ok (l ++ "\n"))
    (read : (Session.run settings {} feed).2 = none) (ends : ∃ l ∈ ls, EndsInBackslash l)
    (rule : WrapRule) :
    slashes ((Session.run settings {} feed).1.render rule) < slashesIn ls := by
  have reads := Session.reads_of_no_fault read
  have shown := (Session.run_shows_gathered read).2
  have tokens : TokenStream.ofFeed feed =
      .ofTokens (tokensBehind 0 ls) (.finish (ls.length + 1)) := by
    have all := after_lines 0 ls []
    rw [List.append_nil, Nat.zero_add] at all
    rw [TokenStream.ofFeed, lines]
    exact all
  have ofTokens := reads.slashes_le
  have ofStatements := slashesIn_foldl_absorb settings.squash [] (Script.ofFeed feed).statements
  have fewer := (slashesOf_tokensBehind 0 ls).2 ends
  rw [tokens, TokenStream.slashes_ofTokens] at ofTokens
  rw [foldl_absorb _ reads.entries_ne_nil] at ofStatements
  rw [shown.render, slashes_renderBlocks]
  simp only [textsOfBlocks, List.flatMap_nil, slashesIn_nil, TokenStream.slashes] at *
  omega

end ImportTidy
