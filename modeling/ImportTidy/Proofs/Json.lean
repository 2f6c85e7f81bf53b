import ImportTidy.Json.Parse
import ImportTidy.Proofs.Cuts

/-!
# Reading JSON that was written

`Json.parse` gives back every value that `Json.pretty` writes, if its numbers are natural numbers
(`parse_pretty`).

Each reader stops where the writer stops.

* A number ends where no digit, dot or exponent follows (`EndsNumber`).  Behind a value stands a
  comma, a line break or nothing, so a number always ends there.
* A text ends at the first quote that no backslash stands before.  The writer puts a backslash
  before each quote of the text, so this is the closing one (`readQuoted_escaped`).
* A list or an object ends at its bracket.  An item never starts with one
  (`Whole.starts`), so a list with items is not taken for an empty one.

The readers of values count down a depth.  Each level of a value takes characters, so its
length is depth enough.
-/

namespace ImportTidy.Json

/-! ## Gaps -/

theorem skipGap_append {gap : List Char} (blank : ∀ c ∈ gap, isGap c = true) (cs : List Char) :
    skipGap (gap ++ cs) = skipGap cs := List.dropWhile_append_of_pos blank

theorem skipGap_cons {c : Char} (solid : isGap c = false) (cs : List Char) :
    skipGap (c :: cs) = c :: cs := List.dropWhile_cons_of_neg (by simp [solid])

theorem skipGap_skipGap (cs : List Char) : skipGap (skipGap cs) = skipGap cs := by
  have cut : CutsAt isGap [] (skipGap cs) := ⟨nofun, (CutsAt.of_list isGap cs).rest⟩
  exact cut.dropWhile_eq

theorem toList_lineBreak (level : Nat) :
    (lineBreak level).toList = '\n' :: List.replicate (2 * level) ' ' := String.toList_ofList

theorem skipGap_lineBreak (level : Nat) (cs : List Char) :
    skipGap ((lineBreak level).toList ++ cs) = skipGap cs := by
  refine skipGap_append (fun c mem => ?_) cs
  rw [toList_lineBreak, List.mem_cons, List.mem_replicate] at mem
  rcases mem with rfl | ⟨-, rfl⟩ <;> rfl

/-- A reader passes over a gap in front. -/
theorem readValue_congr {cs cs' : List Char} (same : skipGap cs = skipGap cs') (depth : Nat) :
    readValue depth cs = readValue depth cs' := by
  cases depth with
  | zero => rfl
  | succ depth => rw [readValue, readValue, same]

theorem readItems_congr {cs cs' : List Char} (same : skipGap cs = skipGap cs') (depth : Nat) :
    readItems depth cs = readItems depth cs' := by
  cases depth with
  | zero => rfl
  | succ depth => rw [readItems, readItems, readValue_congr same]

theorem readMembers_congr {cs cs' : List Char} (same : skipGap cs = skipGap cs') (depth : Nat) :
    readMembers depth cs = readMembers depth cs' := by
  cases depth with
  | zero => rfl
  | succ depth => rw [readMembers, readMembers, same]

/-! ## Numbers -/

/-- A number does not go on here. -/
def EndsNumber (rest : List Char) : Prop :=
  ∀ c ∈ rest.head?, c.isDigit = false ∧ c ≠ '.' ∧ c ≠ 'e' ∧ c ≠ 'E'

theorem toList_toString (n : Nat) : (toString n).toList = Nat.toDigits 10 n := by
  rw [Nat.toString_eq_repr, Nat.repr_eq_ofList_toDigits, String.toList_ofList]

theorem numberOf_toDigits (n : Nat) : numberOf (Nat.toDigits 10 n) = n :=
  Nat.ofDigitChars_toDigits (by decide) (by decide)

theorem isDigit_of_mem_toDigits {n : Nat} {c : Char} (mem : c ∈ Nat.toDigits 10 n) :
    c.isDigit = true := Nat.isDigit_of_mem_toDigits (by decide) (by decide) mem

theorem toString_eq_cons (n : Nat) : ∃ d ds, (toString n).toList = d :: ds ∧ d.isDigit = true := by
  rw [toList_toString]
  obtain ⟨d, ds, digits⟩ := List.exists_cons_of_ne_nil (Nat.toDigits_ne_nil (n := n) (b := 10))
  exact ⟨d, ds, digits, isDigit_of_mem_toDigits (digits ▸ List.mem_cons_self)⟩

/-- Only zero is written with a zero in front. -/
theorem toDigits_zero_cons {n : Nat} {ds : List Char} (h : Nat.toDigits 10 n = '0' :: ds) :
    ds = [] := by
  induction n using Nat.strongRecOn generalizing ds with
  | ind n ih =>
    by_cases small : n < 10
    · rw [Nat.toDigits_of_lt_base small] at h
      exact (List.cons.inj h).2.symm
    · have split := Nat.toDigits_of_base_le (b := 10) (by decide) (Nat.le_of_not_lt small)
      obtain ⟨d, front, digits⟩ := List.exists_cons_of_ne_nil (Nat.toDigits_ne_nil (n := n / 10))
      rw [split, digits] at h
      obtain ⟨rfl, -⟩ := List.cons.inj h
      obtain rfl := ih (n / 10) (by omega) digits
      -- The other digits denote zero, so there are none.
      have zero : n / 10 = 0 := by
        rw [← numberOf_toDigits (n / 10), digits]
        rfl
      omega

theorem readInteger_toDigits (n : Nat) {rest : List Char} (ends : EndsNumber rest) :
    readInteger (Nat.toDigits 10 n ++ rest) = some (Nat.toDigits 10 n, rest) := by
  have cut : CutsAt Char.isDigit (Nat.toDigits 10 n) rest :=
    ⟨fun _ => isDigit_of_mem_toDigits, fun c first => (ends c first).1⟩
  rw [readInteger, takeDigits, cut.takeWhile_eq, cut.dropWhile_eq]
  split
  next none => exact absurd (Prod.mk.inj none).1 Nat.toDigits_ne_nil
  next zero =>
    obtain ⟨zero, rfl⟩ := Prod.mk.inj zero
    rw [zero]
  next more leading =>
    obtain ⟨digits, -⟩ := Prod.mk.inj leading
    obtain rfl := toDigits_zero_cons digits
    exact absurd rfl more
  next => rfl

theorem readFraction_eq {rest : List Char} (ends : EndsNumber rest) :
    readFraction rest = some ([], rest) := by
  cases rest with
  | nil => rfl
  | cons c cs =>
    have noDot := (ends c rfl).2.1
    simp [readFraction, noDot]

theorem readExponent_eq {rest : List Char} (ends : EndsNumber rest) :
    readExponent rest = some ([], rest) := by
  cases rest with
  | nil => rfl
  | cons c cs =>
    have noExponent := (ends c rfl).2.2
    simp [readExponent, noExponent]

theorem readNumber_toString (n : Nat) {rest : List Char} (ends : EndsNumber rest) :
    readNumber ((toString n).toList ++ rest) = some (.natural n, rest) := by
  have integer := readInteger_toDigits n ends
  have number := numberOf_toDigits n
  obtain ⟨d, ds, digits, digit⟩ := toString_eq_cons n
  rw [← toList_toString, digits] at integer number
  rw [List.cons_append] at integer
  rw [digits, List.cons_append, readNumber]
  · simp [integer, readFraction_eq ends, readExponent_eq ends, number]
  · rintro _ ⟨⟩
    exact absurd digit (by decide)

/-! ## Texts -/

theorem hexFour?_hexDigit {n : Nat} (low : n < 0x20) :
    hexFour? '0' '0' (hexDigit (n / 16)) (hexDigit (n % 16)) = some n := by
  revert n
  decide

/-- A character is written as an escape that denotes it, or it stands for itself. -/
theorem escapeChar_cases (c : Char) :
    (∃ e, escapeChar c = '\\' :: e ∧ ∀ cs, readEscape (e ++ cs) = some (c, cs)) ∨
      (escapeChar c = [c] ∧ c ≠ '\x22' ∧ c ≠ '\\' ∧ ¬ c.toNat < 0x20) := by
  have ofNat : ∀ {n}, c.toNat = n → c = Char.ofNat n := fun h => by rw [← h, Char.ofNat_toNat]
  unfold escapeChar
  split
  next quote => exact .inl ⟨[c], rfl, fun cs => by rw [ofNat quote]; rfl⟩
  next backslash => exact .inl ⟨[c], rfl, fun cs => by rw [ofNat backslash]; rfl⟩
  next code => exact .inl ⟨['b'], rfl, fun cs => by rw [ofNat code]; rfl⟩
  next code => exact .inl ⟨['f'], rfl, fun cs => by rw [ofNat code]; rfl⟩
  next code => exact .inl ⟨['n'], rfl, fun cs => by rw [ofNat code]; rfl⟩
  next code => exact .inl ⟨['r'], rfl, fun cs => by rw [ofNat code]; rfl⟩
  next code => exact .inl ⟨['t'], rfl, fun cs => by rw [ofNat code]; rfl⟩
  next noQuote noBackslash _ _ _ _ _ =>
    split
    next low =>
      refine .inl ⟨_, rfl, fun cs => ?_⟩
      have unit : charOfUnit? c.toNat cs = some (c, cs) := by
        rw [charOfUnit?.eq_def, if_pos (.inl (by omega)), Char.ofNat_toNat]
      show (hexFour? _ _ _ _).bind _ = _
      rw [hexFour?_hexDigit low, Option.bind_some]
      exact unit
    next high =>
      exact .inr ⟨rfl, fun quote => noQuote (by rw [quote]; rfl),
        fun backslash => noBackslash (by rw [backslash]; rfl), high⟩

theorem readQuoted_escapeChar (limit : Nat) (c : Char) (cs : List Char) :
    readQuoted (limit + 1) (escapeChar c ++ cs) =
      (readQuoted limit cs).map fun r => (c :: r.1, r.2) := by
  rcases escapeChar_cases c with ⟨e, written, read⟩ | ⟨itself, noQuote, noBackslash, high⟩
  · rw [written, List.cons_append, readQuoted, if_neg (by decide), if_pos rfl, read]
    cases behind : readQuoted limit cs <;> simp [behind]
  · rw [itself, List.singleton_append, readQuoted, if_neg noQuote, if_neg noBackslash, if_neg high]
    cases readQuoted limit cs <;> rfl

theorem readQuoted_escaped {limit : Nat} {cs : List Char} (enough : cs.length < limit)
    (rest : List Char) :
    readQuoted limit (cs.flatMap escapeChar ++ '\x22' :: rest) = some (cs, rest) := by
  induction cs generalizing limit with
  | nil =>
    cases limit with
    | zero => cases enough
    | succ limit => rfl
  | cons c cs ih =>
    cases limit with
    | zero => cases enough
    | succ limit =>
      rw [List.flatMap_cons, List.append_assoc, readQuoted_escapeChar,
        ih (Nat.lt_of_succ_lt_succ enough)]
      rfl

theorem length_le_escaped (cs : List Char) : cs.length ≤ (cs.flatMap escapeChar).length := by
  induction cs with
  | nil => exact Nat.le_refl 0
  | cons c cs ih =>
    have one : 0 < (escapeChar c).length := by
      rcases escapeChar_cases c with ⟨e, written, -⟩ | ⟨itself, -⟩ <;> simp [*]
    rw [List.flatMap_cons, List.length_append, List.length_cons]
    omega

theorem toList_quoted_append (s : String) (rest : List Char) :
    (quoted s).toList ++ rest = '\x22' :: (s.toList.flatMap escapeChar ++ '\x22' :: rest) := by
  rw [quoted, String.toList_ofList]
  simp

theorem readText_escaped (s : String) (rest : List Char) :
    readText (s.toList.flatMap escapeChar ++ '\x22' :: rest) = some (s, rest) := by
  have shorter := length_le_escaped s.toList
  rw [readText, readQuoted_escaped (by rw [List.length_append]; omega), Option.map_some,
    String.ofList_toList]

/-! ## Values -/

/-- All numbers of a value are natural numbers. -/
inductive Whole : Json → Prop where
  | null : Whole .null
  | bool (b : Bool) : Whole (.bool b)
  | natural (n : Nat) : Whole (.natural n)
  | string (s : String) : Whole (.string s)
  | array {items : List Json} : (∀ v ∈ items, Whole v) → Whole (.array items)
  | object {members : List (String × Json)} : (∀ m ∈ members, Whole m.2) → Whole (.object members)

/-! ### How values are written -/

theorem toList_array (level : Nat) (item : Json) (items : List Json) :
    (prettyAt level (.array (item :: items))).toList =
      '[' :: ((lineBreak (level + 1)).toList ++ ((prettyAt (level + 1) item).toList ++
        ((prettyItems (level + 1) items).toList ++ ((lineBreak level).toList ++ [']'])))) := by
  simp [prettyAt]

theorem toList_items (level : Nat) (item : Json) (items : List Json) :
    (prettyItems level (item :: items)).toList =
      ',' :: ((lineBreak level).toList ++ ((prettyAt level item).toList ++
        (prettyItems level items).toList)) := by
  simp [prettyItems]

theorem toList_object (level : Nat) (key : String) (value : Json)
    (members : List (String × Json)) :
    (prettyAt level (.object ((key, value) :: members))).toList =
      '\x7b' :: ((lineBreak (level + 1)).toList ++ ((quoted key).toList ++
        (':' :: ' ' :: ((prettyAt (level + 1) value).toList ++
          ((prettyMembers (level + 1) members).toList ++
            ((lineBreak level).toList ++ ['\x7d'])))))) := by
  simp [prettyAt]

theorem toList_members (level : Nat) (key : String) (value : Json)
    (members : List (String × Json)) :
    (prettyMembers level ((key, value) :: members)).toList =
      ',' :: ((lineBreak level).toList ++ ((quoted key).toList ++
        (':' :: ' ' :: ((prettyAt level value).toList ++
          (prettyMembers level members).toList)))) := by
  simp [prettyMembers]

theorem not_gap_of_isDigit {d : Char} (digit : d.isDigit = true) : isGap d = false := by
  cases gap : isGap d with
  | false => rfl
  | true =>
    simp only [isGap, Bool.or_eq_true, decide_eq_true_eq] at gap
    rcases gap with ((rfl | rfl) | rfl) | rfl <;> exact absurd digit (by decide)

/-- A value starts with no blank and with no closing bracket. -/
theorem Whole.starts {v : Json} (h : Whole v) (level : Nat) :
    ∃ c cs, (prettyAt level v).toList = c :: cs ∧ isGap c = false ∧ c ≠ ']' := by
  cases h with
  | null => exact ⟨'n', ['u', 'l', 'l'], by rw [prettyAt]; rfl, by decide⟩
  | bool b =>
    cases b with
    | false => exact ⟨'f', ['a', 'l', 's', 'e'], by rw [prettyAt]; rfl, by decide⟩
    | true => exact ⟨'t', ['r', 'u', 'e'], by rw [prettyAt]; rfl, by decide⟩
  | natural n =>
    obtain ⟨d, ds, digits, digit⟩ := toString_eq_cons n
    refine ⟨d, ds, by rw [prettyAt, digits], not_gap_of_isDigit digit, ?_⟩
    rintro rfl
    exact absurd digit (by decide)
  | string s =>
    have written := toList_quoted_append s []
    rw [List.append_nil] at written
    exact ⟨'\x22', _, written, by decide⟩
  | @array items _ =>
    cases items with
    | nil => exact ⟨'[', [']'], by rw [prettyAt]; rfl, by decide⟩
    | cons item items => exact ⟨'[', _, toList_array level item items, by decide⟩
  | @object members _ =>
    cases members with
    | nil => exact ⟨'\x7b', ['\x7d'], by rw [prettyAt]; rfl, by decide⟩
    | cons m members => exact ⟨'\x7b', _, toList_object level m.1 m.2 members, by decide⟩

/-! ### How values are read -/

section Readers

variable {depth : Nat} {c : Char} {cs rest after : List Char}

theorem readValue_digit (digit : c.isDigit = true) :
    readValue (depth + 1) (c :: cs) = readNumber (c :: cs) := by
  rw [readValue, skipGap_cons (not_gap_of_isDigit digit)]
  split <;> simp_all [Char.isDigit]

theorem readValue_quote :
    readValue (depth + 1) ('\x22' :: cs) = (readText cs).map fun r => (.string r.1, r.2) := by
  rw [readValue, skipGap_cons (by decide)]
  rfl

/-- A list that does not close at once has items. -/
theorem readValue_bracket (opens : ∀ rest, skipGap cs ≠ ']' :: rest) :
    readValue (depth + 1) ('[' :: cs) =
      (readItems depth cs).map fun r => (.array r.1, r.2) := by
  rw [readItems_congr (skipGap_skipGap cs).symm depth]
  simp only [readValue, skipGap_cons (c := '[') rfl]

theorem readValue_brace (opens : ∀ rest, skipGap cs ≠ '\x7d' :: rest) :
    readValue (depth + 1) ('\x7b' :: cs) =
      (readMembers depth cs).map fun r => (.object r.1, r.2) := by
  rw [readMembers_congr (skipGap_skipGap cs).symm depth]
  simp only [readValue, skipGap_cons (c := '\x7b') rfl]

variable {item : Json}

theorem readItems_last (read : readValue depth cs = some (item, rest))
    (close : skipGap rest = ']' :: after) : readItems (depth + 1) cs = some ([item], after) := by
  simp [readItems, read, close]

theorem readItems_more (read : readValue depth cs = some (item, rest))
    (comma : skipGap rest = ',' :: after) :
    readItems (depth + 1) cs = (readItems depth after).map fun r => (item :: r.1, r.2) := by
  simp [readItems, read, comma]

variable {key : String}

theorem readMembers_last (read : readValue depth cs = some (item, rest))
    (close : skipGap rest = '\x7d' :: after) :
    readMembers (depth + 1) ((quoted key).toList ++ (':' :: cs)) = some ([(key, item)], after) := by
  rw [toList_quoted_append]
  simp [readMembers, skipGap_cons (c := '\x22') rfl, skipGap_cons (c := ':') rfl,
    readText_escaped, read, close]

theorem readMembers_more (read : readValue depth cs = some (item, rest))
    (comma : skipGap rest = ',' :: after) :
    readMembers (depth + 1) ((quoted key).toList ++ (':' :: cs)) =
      (readMembers depth after).map fun r => ((key, item) :: r.1, r.2) := by
  rw [toList_quoted_append]
  simp [readMembers, skipGap_cons (c := '\x22') rfl, skipGap_cons (c := ':') rfl,
    readText_escaped, read, comma]

end Readers

/-! ### What is written is read -/

theorem endsNumber_cons {c : Char} (h : c = ',' ∨ c = '\n') (cs : List Char) :
    EndsNumber (c :: cs) := by
  rintro _ ⟨⟩
  rcases h with rfl | rfl <;> decide

theorem endsNumber_lineBreak (level : Nat) (cs : List Char) :
    EndsNumber ((lineBreak level).toList ++ cs) := by
  rw [toList_lineBreak]
  exact endsNumber_cons (.inr rfl) _

/-- The value is read where it was written, whatever stands behind it. -/
def Reads (v : Json) : Prop :=
  ∀ (level depth : Nat) (rest : List Char), (prettyAt level v).toList.length ≤ depth →
    EndsNumber rest → readValue (depth + 1) ((prettyAt level v).toList ++ rest) = some (v, rest)

theorem readItems_pretty {item : Json} {items : List Json} (first : Reads item)
    (others : ∀ v ∈ items, Reads v) (level depth outer : Nat) (rest : List Char)
    (enough : (prettyAt level item).toList.length + (prettyItems level items).toList.length ≤
      depth) :
    readItems (depth + 2) ((prettyAt level item).toList ++ ((prettyItems level items).toList ++
      ((lineBreak outer).toList ++ ']' :: rest))) = some (item :: items, rest) := by
  induction items generalizing item depth with
  | nil =>
    have read := first level depth _ (by omega) (endsNumber_lineBreak outer (']' :: rest))
    rw [prettyItems, String.toList_empty, List.nil_append]
    refine readItems_last read ?_
    rw [skipGap_lineBreak, skipGap_cons (by decide)]
  | cons next items ih =>
    obtain ⟨second, others⟩ := List.forall_mem_cons.mp others
    rw [toList_items] at enough ⊢
    simp only [List.length_cons, List.length_append] at enough
    -- The comma pays for the step down.
    obtain ⟨depth, rfl⟩ := Nat.exists_eq_add_one_of_ne_zero (n := depth) (by omega)
    simp only [List.cons_append, List.append_assoc]
    rw [readItems_more (first level _ _ (by omega) (endsNumber_cons (.inl rfl) _))
        (skipGap_cons (by decide) _),
      readItems_congr (skipGap_lineBreak level _), ih second others depth (by omega)]
    rfl

theorem readMembers_pretty (key : String) {value : Json} {members : List (String × Json)}
    (first : Reads value) (others : ∀ m ∈ members, Reads m.2) (level depth outer : Nat)
    (rest : List Char)
    (enough : (prettyAt level value).toList.length +
      (prettyMembers level members).toList.length ≤ depth) :
    readMembers (depth + 2) ((quoted key).toList ++ (':' :: ' ' ::
      ((prettyAt level value).toList ++ ((prettyMembers level members).toList ++
        ((lineBreak outer).toList ++ '\x7d' :: rest))))) = some ((key, value) :: members, rest) := by
  have blank : ∀ cs, skipGap (' ' :: cs) = skipGap cs := fun cs =>
    skipGap_append (fun c (mem : c ∈ [' ']) => by rw [List.mem_singleton.mp mem]; rfl) cs
  induction members generalizing key value depth with
  | nil =>
    have read := first level depth _ (by omega) (endsNumber_lineBreak outer ('\x7d' :: rest))
    rw [prettyMembers, String.toList_empty, List.nil_append]
    refine readMembers_last ((readValue_congr (blank _) _).trans read) ?_
    rw [skipGap_lineBreak, skipGap_cons (by decide)]
  | cons next members ih =>
    obtain ⟨second, others⟩ := List.forall_mem_cons.mp others
    rw [toList_members] at enough ⊢
    simp only [List.length_cons, List.length_append] at enough
    obtain ⟨depth, rfl⟩ := Nat.exists_eq_add_one_of_ne_zero (n := depth) (by omega)
    simp only [List.cons_append, List.append_assoc]
    rw [readMembers_more ((readValue_congr (blank _) _).trans
        (first level _ _ (by omega) (endsNumber_cons (.inl rfl) _))) (skipGap_cons (by decide) _),
      readMembers_congr (skipGap_lineBreak level _), ih next.1 second others depth (by omega)]
    rfl

theorem reads_natural (n : Nat) : Reads (.natural n) := by
  intro level depth rest _ ends
  obtain ⟨d, ds, digits, digit⟩ := toString_eq_cons n
  have number := readNumber_toString n ends
  rw [digits] at number
  rw [prettyAt, digits, List.cons_append, readValue_digit digit]
  exact number

theorem reads_string (s : String) : Reads (.string s) := by
  intro level depth rest _ _
  rw [prettyAt, toList_quoted_append, readValue_quote, readText_escaped]
  rfl

theorem reads_array {items : List Json} (whole : ∀ v ∈ items, Whole v)
    (each : ∀ v ∈ items, Reads v) : Reads (.array items) := by
  intro level depth rest enough _
  cases items with
  | nil => rw [prettyAt]; rfl
  | cons item items =>
    obtain ⟨first, others⟩ := List.forall_mem_cons.mp each
    rw [toList_array] at enough ⊢
    simp only [List.length_cons, List.length_append] at enough
    obtain ⟨depth, rfl⟩ := Nat.exists_eq_add_of_le' (show 2 ≤ depth by omega)
    have read := readItems_pretty first others (level + 1) depth level rest (by omega)
    obtain ⟨c, cs, starts, solid, opens⟩ := (whole item List.mem_cons_self).starts (level + 1)
    simp only [List.cons_append, List.append_assoc, List.nil_append]
    rw [readValue_bracket, readItems_congr (skipGap_lineBreak _ _), read]
    · rfl
    · rw [skipGap_lineBreak, starts, List.cons_append, skipGap_cons solid]
      exact fun rest closed => opens (List.cons.inj closed).1

theorem reads_object {members : List (String × Json)} (each : ∀ m ∈ members, Reads m.2) :
    Reads (.object members) := by
  intro level depth rest enough _
  cases members with
  | nil => rw [prettyAt]; rfl
  | cons m members =>
    obtain ⟨key, value⟩ := m
    obtain ⟨(first : Reads value), others⟩ := List.forall_mem_cons.mp each
    rw [toList_object] at enough ⊢
    simp only [List.length_cons, List.length_append] at enough
    obtain ⟨depth, rfl⟩ := Nat.exists_eq_add_of_le' (show 2 ≤ depth by omega)
    have read := readMembers_pretty key first others (level + 1) depth level rest (by omega)
    simp only [List.cons_append, List.append_assoc, List.nil_append]
    rw [readValue_brace, readMembers_congr (skipGap_lineBreak _ _), read]
    · rfl
    · rw [skipGap_lineBreak, toList_quoted_append, skipGap_cons (by decide)]
      exact fun rest closed => absurd (List.cons.inj closed).1 (by decide)

/-- The induction is on the value, and every list and object takes what its items give. -/
theorem Whole.reads {v : Json} (h : Whole v) : Reads v := by
  induction h with
  | null => intro level depth rest _ _; rw [prettyAt]; rfl
  | bool b => intro level depth rest _ _; cases b <;> rw [prettyAt] <;> rfl
  | natural n => exact reads_natural n
  | string s => exact reads_string s
  | array whole each => exact reads_array whole each
  | object whole each => exact reads_object each

/-- A value that was written over several lines is read back. -/
theorem parse_pretty {v : Json} (h : Whole v) : parse v.pretty = some v := by
  have read := h.reads 0 (prettyAt 0 v).toList.length [] (Nat.le_refl _) nofun
  rw [List.append_nil] at read
  rw [parse, pretty, read]
  rfl

end ImportTidy.Json
