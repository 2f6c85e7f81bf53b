import ImportTidy.Proofs.Splitting
import ImportTidy.Tokenizer

/-!
# Lexemes in bytes

The tests on bytes ask for ASCII characters.  Such a byte stands for its character, and it is
no byte of another one (`AsciiBytes`).  So the tests on bytes and those on characters agree,
character by character: blanks are as many, a word is as long (`wordLength_bytesOf`), and a
backslash joins lines alike (`joinsBytes_bytesOf`).

`lexemeOf` finds the token in front by these tests.  It finds what the characters say
(`lexemeOf_of_lexeme`).
-/

namespace ImportTidy

/-! ## Bytes of characters -/

/-- The bytes of characters. -/
def bytesOf (cs : List Char) : List UInt8 := Utf8.encode (.ofList cs)

theorem bytesOf_cons (c : Char) (cs : List Char) :
    bytesOf (c :: cs) = String.utf8EncodeChar c ++ bytesOf cs := encode_ofList_cons c cs

theorem bytesOf_append (cs cs' : List Char) : bytesOf (cs ++ cs') = bytesOf cs ++ bytesOf cs' := by
  rw [bytesOf, String.ofList_append, Utf8.encode_append]
  rfl

theorem length_bytesOf (cs : List Char) : (bytesOf cs).length = byteSize cs := rfl

/-- The bytes of a character, against those of ASCII. -/
structure AsciiBytes (c : Char) (b : UInt8) (bs : List UInt8) : Prop where
  bytes : String.utf8EncodeChar c = b :: bs
  first : ∀ d : Char, d.toNat < 128 → (b = d.toUInt8 ↔ c = d)
  others : ∀ b' ∈ bs, ∀ d : Char, d.toNat < 128 → b' ≠ d.toUInt8
  single : c.toNat < 128 → bs = []

theorem toNat_toUInt8 {c : Char} (ascii : c.toNat < 128) : c.toUInt8.toNat = c.toNat := by
  show c.val.toUInt8.toNat = c.val.toNat
  rw [UInt32.toNat_toUInt8]
  exact Nat.mod_eq_of_lt (Nat.lt_trans ascii (by decide))

theorem toUInt8_eq_iff {c d : Char} (hc : c.toNat < 128) (hd : d.toNat < 128) :
    c.toUInt8 = d.toUInt8 ↔ c = d := by
  rw [← UInt8.toNat_inj, toNat_toUInt8 hc, toNat_toUInt8 hd]
  exact ⟨fun same => Char.ext (UInt32.toNat_inj.mp same), congrArg Char.toNat⟩

theorem utf8EncodeChar_of_ascii {c : Char} (ascii : c.toNat < 128) :
    String.utf8EncodeChar c = [c.toUInt8] := by
  have value : c.val.toNat ≤ 127 := Nat.le_of_lt_succ ascii
  unfold String.utf8EncodeChar
  simp only [value, if_true]
  rfl

/-- No byte of another character is ASCII. -/
theorem le_of_mem_utf8EncodeChar {c : Char} (high : 128 ≤ c.toNat) {b : UInt8}
    (mem : b ∈ String.utf8EncodeChar c) : 128 ≤ b.toNat := by
  have value : ¬ c.val.toNat ≤ 127 := Nat.not_le_of_lt high
  unfold String.utf8EncodeChar at mem
  simp only [value, if_false] at mem
  split at mem
  · simp only [List.mem_cons, List.not_mem_nil, or_false] at mem
    rcases mem with rfl | rfl <;> rw [UInt8.toNat_ofNat'] <;> omega
  · split at mem
    · simp only [List.mem_cons, List.not_mem_nil, or_false] at mem
      rcases mem with rfl | rfl | rfl <;> rw [UInt8.toNat_ofNat'] <;> omega
    · simp only [List.mem_cons, List.not_mem_nil, or_false] at mem
      rcases mem with rfl | rfl | rfl | rfl <;> rw [UInt8.toNat_ofNat'] <;> omega

theorem exists_asciiBytes (c : Char) : ∃ b bs, AsciiBytes c b bs := by
  by_cases ascii : c.toNat < 128
  · refine ⟨c.toUInt8, [], utf8EncodeChar_of_ascii ascii, fun d hd => toUInt8_eq_iff ascii hd,
      nofun, fun _ => rfl⟩
  · have high := Nat.le_of_not_lt ascii
    have foreign : ∀ b ∈ String.utf8EncodeChar c, ∀ d : Char, d.toNat < 128 → b ≠ d.toUInt8 := by
      rintro b mem d hd rfl
      have same := toNat_toUInt8 hd
      have large := le_of_mem_utf8EncodeChar high mem
      omega
    cases bytes : String.utf8EncodeChar c with
    | nil =>
      have length := String.length_utf8EncodeChar c
      rw [bytes] at length
      exact absurd length.symm (Nat.ne_of_gt c.utf8Size_pos)
    | cons b bs =>
      rw [bytes] at foreign
      obtain ⟨first, others⟩ := List.forall_mem_cons.mp foreign
      refine ⟨b, bs, bytes, fun d hd => ?_, others, fun small => absurd small ascii⟩
      refine iff_of_false (first d hd) ?_
      rintro rfl
      exact ascii hd

/-- An ASCII byte stands for its character wherever it is. -/
theorem toUInt8_mem_bytesOf {d : Char} (ascii : d.toNat < 128) {cs : List Char} :
    d.toUInt8 ∈ bytesOf cs ↔ d ∈ cs := by
  induction cs with
  | nil => exact iff_of_false List.not_mem_nil List.not_mem_nil
  | cons c cs ih =>
    obtain ⟨b, bs, bytes⟩ := exists_asciiBytes c
    have foreign : d.toUInt8 ∉ bs := fun mem => bytes.others _ mem d ascii rfl
    rw [bytesOf_cons, bytes.bytes, List.mem_append, List.mem_cons, List.mem_cons, ih,
      eq_comm (a := d.toUInt8), bytes.first d ascii, eq_comm (a := c)]
    simp [foreign]

/-! ## Classes of bytes -/

namespace AsciiBytes

variable {c : Char} {b : UInt8} {bs : List UInt8}

theorem isBlankByte_eq (h : AsciiBytes c b bs) : isBlankByte b = isBlank c := by
  simp (disch := decide) only [isBlankByte, isBlank, h.first]

theorem isDelimiterByte_eq (h : AsciiBytes c b bs) : isDelimiterByte b = isDelimiter c := by
  simp (disch := decide) only [isDelimiterByte, isDelimiter, h.isBlankByte_eq, h.first]

/-- The other bytes of a character are in a word. -/
theorem inWordByte_others (h : AsciiBytes c b bs) {b' : UInt8} (mem : b' ∈ bs)
    (behind : List UInt8) : inWordByte b' behind = true := by
  have foreign := h.others b' mem
  simp (disch := decide) [inWordByte, isDelimiterByte, isBlankByte, foreign]

theorem bytesOf_cons (h : AsciiBytes c b bs) (cs : List Char) :
    bytesOf (c :: cs) = b :: (bs ++ bytesOf cs) := by
  rw [ImportTidy.bytesOf_cons, h.bytes]
  rfl

theorem byteSize_eq (h : AsciiBytes c b bs) (cs : List Char) :
    byteSize (c :: cs) = 1 + (bs.length + byteSize cs) := by
  rw [← length_bytesOf, h.bytesOf_cons, List.length_cons, List.length_append, length_bytesOf,
    Nat.add_comm 1]

end AsciiBytes

theorem ascii_of_isBlank {c : Char} (blank : isBlank c = true) : c.toNat < 128 := by
  simp only [isBlank, Bool.or_eq_true, decide_eq_true_eq] at blank
  rcases blank with (rfl | rfl) | rfl <;> decide

theorem length_takeWhile_isBlankByte (cs : List Char) :
    ((bytesOf cs).takeWhile isBlankByte).length = leadingBlanks cs := by
  induction cs with
  | nil => rfl
  | cons c cs ih =>
    obtain ⟨b, bs, ascii⟩ := exists_asciiBytes c
    have same := ascii.isBlankByte_eq
    rw [ascii.bytesOf_cons]
    cases blank : isBlank c with
    | true =>
      rw [blank] at same
      rw [ascii.single (ascii_of_isBlank blank), List.nil_append, List.takeWhile_cons_of_pos same,
        List.length_cons, ih, leadingBlanks_cons_of_blank blank, Nat.add_comm]
    | false =>
      rw [blank] at same
      rw [List.takeWhile_cons_of_neg (by simp [same]), leadingBlanks_cons_of_not_blank blank]
      rfl

theorem joinsBytes_bytesOf (cs : List Char) : joinsBytes (bytesOf cs) = joinsLines cs := by
  induction cs with
  | nil => rfl
  | cons c cs ih =>
    obtain ⟨b, bs, ascii⟩ := exists_asciiBytes c
    have same := ascii.isBlankByte_eq
    have isNewline := ascii.first '\n' (by decide)
    rw [ascii.bytesOf_cons]
    rw [joinsBytes] at ih ⊢
    rw [joinsLines] at ih ⊢
    rw [List.all_cons, List.all_cons, List.all_append, ih, same]
    cases blank : isBlank c with
    | true =>
      rw [ascii.single (ascii_of_isBlank blank)]
      simp
    | false =>
      by_cases newline : c = '\n'
      · rw [ascii.single (by subst newline; decide)]
        simp [isNewline.mpr newline, newline]
      · simp [mt isNewline.mp newline, newline]

/-! ## Words and other lexemes -/

theorem wordLength_append {bs : List UInt8} (h : ∀ b ∈ bs, ∀ behind, inWordByte b behind = true)
    (behind : List UInt8) : wordLength (bs ++ behind) = bs.length + wordLength behind := by
  induction bs with
  | nil => simp
  | cons b bs ih =>
    obtain ⟨first, others⟩ := List.forall_mem_cons.mp h
    rw [List.cons_append, wordLength, if_pos (first _), ih others, List.length_cons]
    omega

/-- A character and its first byte go on with a word alike. -/
theorem AsciiBytes.inWordByte_eq {c : Char} {b : UInt8} {bs : List UInt8} (h : AsciiBytes c b bs)
    (cs : List Char) : inWordByte b (bs ++ bytesOf cs) = inWord c cs := by
  rw [inWordByte, inWord, h.isDelimiterByte_eq]
  by_cases slash : c = '\\'
  · have single := h.single (by subst slash; decide)
    rw [single, List.nil_append, joinsBytes_bytesOf]
    simp [(h.first '\\' (by decide)).mpr slash, slash]
  · simp [mt (h.first '\\' (by decide)).mp slash, slash]

/-- The bytes of a word are those of its characters. -/
theorem wordLength_bytesOf {own behind : List Char} (inside : Each (inWord · · = true) own behind)
    (stops : EndsWord behind) : wordLength (bytesOf (own ++ behind)) = byteSize own := by
  induction own with
  | nil =>
    cases behind with
    | nil => rfl
    | cons c cs =>
      obtain ⟨b, bs, ascii⟩ := exists_asciiBytes c
      rw [List.nil_append, ascii.bytesOf_cons, wordLength, ascii.inWordByte_eq, stops c cs rfl]
      rfl
  | cons c own ih =>
    obtain ⟨b, bs, ascii⟩ := exists_asciiBytes c
    rw [List.cons_append, ascii.bytesOf_cons, wordLength, ascii.inWordByte_eq, if_pos inside.1,
      wordLength_append fun b' mem => ascii.inWordByte_others mem, ih inside.2, ascii.byteSize_eq]

theorem kindOfBytes_encode (word : String) : kindOfBytes (Utf8.encode word) = wordKind word := by
  have same : ∀ keyword, Utf8.encode word = Utf8.encode keyword ↔ word = keyword := fun keyword =>
    ⟨Utf8.encode_injective, congrArg _⟩
  simp only [kindOfBytes, wordKind, same]

theorem lexemeOf_newline (behind : List Char) :
    lexemeOf (bytesOf ('\n' :: behind)) = some (.lineBreak, 1) := by
  rw [bytesOf_cons]
  rfl

theorem lexemeOf_comment (behind : List Char) :
    lexemeOf (bytesOf ('#' :: behind)) = some (.comment, 1) := by
  rw [bytesOf_cons]
  rfl

theorem lexemeOf_joined {behind : List Char} (joins : joinsLines behind = true) :
    lexemeOf (bytesOf ('\\' :: behind)) = none := by
  rw [← joinsBytes_bytesOf] at joins
  rw [bytesOf_cons]
  show lexemeOf ('\\'.toUInt8 :: bytesOf behind) = none
  rw [lexemeOf, if_neg (by decide), if_neg (by decide), if_pos ⟨rfl, joins⟩]

/-- A lexeme is found with its length. -/
theorem lexemeOf_of_lexeme {own behind : List Char} {kind : TokenKind}
    (h : Lexeme own behind kind) :
    lexemeOf (bytesOf (own ++ behind)) = some (kind, byteSize own) := by
  cases h with
  | comma =>
    rw [List.singleton_append, bytesOf_cons]
    rfl
  | leftParen =>
    rw [List.singleton_append, bytesOf_cons]
    rfl
  | rightParen =>
    rw [List.singleton_append, bytesOf_cons]
    rfl
  | word some inside stops =>
    obtain ⟨c, more, rfl⟩ := List.exists_cons_of_ne_nil some
    obtain ⟨b, bs, ascii⟩ := exists_asciiBytes c
    have length : wordLength (bs ++ bytesOf (more ++ behind)) = bs.length + byteSize more := by
      rw [wordLength_append fun b' mem => ascii.inWordByte_others mem,
        wordLength_bytesOf inside.2 stops]
    have word : b :: (bs ++ bytesOf (more ++ behind)).take (bs.length + byteSize more) =
        bytesOf (c :: more) := by
      rw [bytesOf_append, ← List.append_assoc, ← length_bytesOf, ← List.length_append,
        List.take_left, ascii.bytesOf_cons]
    have goesOn : inWordByte b (bs ++ bytesOf (more ++ behind)) = true := by
      rw [ascii.inWordByte_eq]
      exact inside.1
    simp only [inWordByte, isDelimiterByte, Bool.and_eq_true, Bool.not_eq_true',
      Bool.or_eq_false_iff, decide_eq_false_iff_not, Bool.and_eq_false_iff] at goesOn
    obtain ⟨⟨⟨⟨⟨⟨-, noComma⟩, noComment⟩, noNewline⟩, noLeft⟩, noRight⟩, noJoin⟩ := goesOn
    have noSlash : ¬ (b = '\\'.toUInt8 ∧ joinsBytes (bs ++ bytesOf (more ++ behind)) = true) := by
      rintro ⟨slash, joins⟩
      rcases noJoin with noSlash | noJoin
      · exact noSlash slash
      · rw [noJoin] at joins
        cases joins
    rw [List.cons_append, ascii.bytesOf_cons, lexemeOf, if_neg noNewline, if_neg noComment,
      if_neg noSlash, if_neg noComma, if_neg noLeft, if_neg noRight, length, word, bytesOf,
      kindOfBytes_encode, ascii.byteSize_eq]

end ImportTidy
