import Mathlib.Data.List.DropRight
import Mathlib.Data.Nat.Digits.Defs
import ImportTidy.Proofs.ByteClasses
import ImportTidy.Proofs.NaturalOrder

/-!
# The numbers at the ends of names

The digits at the end of a name denote a number, and the natural order compares these numbers
and not the digits (`cmp_eq`).

The comparison never computes a number.  It drops leading zeros, which changes no number
(`value_significant`).  Of two runs without leading zeros the longer one is the greater number
(`value_lt_of_length_lt`), and runs of one length stand in the order of their digits
(`compare_value`).

The stem and the run of a name are cut from its bytes.  A digit is one byte, and no byte of
another character is a digit (`isDigit_of_mem_utf8EncodeChar`).  So the cut lies between
characters (`stem_bytesOf`), and the run denotes the number that is read from the characters
(`value_run_encode`).
-/

namespace ImportTidy.NaturalOrder

/-! ## Values of runs -/

/-- The number that a run of digits denotes. -/
def value (digits : List UInt8) : Nat := Nat.ofDigits 10 (digits.map (·.toNat - 0x30)).reverse

/-- Digits and nothing else. -/
def AllDigits (digits : List UInt8) : Prop := ∀ b ∈ digits, isDigit b = true

variable {d e : UInt8} {ds es : List UInt8}

theorem value_cons (d : UInt8) (ds : List UInt8) :
    value (d :: ds) = value ds + 10 ^ ds.length * (d.toNat - 0x30) := by
  rw [value, List.map_cons, Nat.ofDigits_reverse_cons, List.length_map]
  rfl

theorem isDigit_iff {b : UInt8} : isDigit b = true ↔ 0x30 ≤ b.toNat ∧ b.toNat ≤ 0x39 := by
  simp [isDigit, UInt8.le_iff_toNat_le]

theorem value_lt (digits : AllDigits ds) : value ds < 10 ^ ds.length := by
  have bound : ∀ n ∈ (ds.map (·.toNat - 0x30)).reverse, n < 10 := by
    intro n mem
    rw [List.mem_reverse, List.mem_map] at mem
    obtain ⟨b, hb, rfl⟩ := mem
    have := isDigit_iff.mp (digits b hb)
    omega
  have less := Nat.ofDigits_lt_base_pow_length (by decide) bound
  rwa [List.length_reverse, List.length_map] at less

/-- Leading zeros do not count. -/
theorem value_significant (ds : List UInt8) : value (significant ds) = value ds := by
  induction ds with
  | nil => rfl
  | cons d ds ih =>
    rw [significant, List.dropWhile_cons]
    split
    next zero =>
      rw [← significant, ih, value_cons, eq_of_beq zero]
      rfl
    next => rfl

/-- A greater first digit decides, whatever the others are. -/
theorem value_lt_of_head_lt (digits : AllDigits (d :: ds)) (same : ds.length = es.length)
    (less : d.toNat < e.toNat) : value (d :: ds) < value (e :: es) := by
  obtain ⟨first, others⟩ := List.forall_mem_cons.mp digits
  have low := isDigit_iff.mp first
  have step : d.toNat - 0x30 + 1 ≤ e.toNat - 0x30 := by omega
  calc value (d :: ds)
    _ = value ds + 10 ^ ds.length * (d.toNat - 0x30) := value_cons d ds
    _ < 10 ^ ds.length + 10 ^ ds.length * (d.toNat - 0x30) :=
      Nat.add_lt_add_right (value_lt others) _
    _ = 10 ^ ds.length * (d.toNat - 0x30 + 1) := by rw [Nat.mul_succ, Nat.add_comm]
    _ ≤ 10 ^ ds.length * (e.toNat - 0x30) := Nat.mul_le_mul_left _ step
    _ ≤ value (e :: es) := by
      rw [value_cons, same]
      exact Nat.le_add_left _ _

/-- A longer run is a greater number, if it has no leading zero. -/
theorem value_lt_of_length_lt (digits : AllDigits ds) (digits' : AllDigits es)
    (noZero : ∀ e ∈ es.head?, e ≠ 0x30) (less : ds.length < es.length) : value ds < value es := by
  cases es with
  | nil => exact absurd less (Nat.not_lt_zero _)
  | cons e es =>
    have range := isDigit_iff.mp (digits' e List.mem_cons_self)
    have other : e.toNat ≠ 0x30 := fun zero => noZero e rfl (UInt8.toNat_inj.mp zero)
    calc value ds
      _ < 10 ^ ds.length := value_lt digits
      _ ≤ 10 ^ es.length := Nat.pow_le_pow_right (by decide) (Nat.le_of_lt_succ less)
      _ ≤ 10 ^ es.length * (e.toNat - 0x30) := Nat.le_mul_of_pos_right _ (by omega)
      _ ≤ value (e :: es) := by
        rw [value_cons]
        exact Nat.le_add_left _ _

theorem compare_add (v w k : Nat) : compare (v + k) (w + k) = compare v w := by
  simp only [Nat.compare_eq_ite_lt, Nat.add_lt_add_iff_right]

/-- Runs of one length are compared digit by digit. -/
theorem compare_value (digits : AllDigits ds) (digits' : AllDigits es)
    (same : ds.length = es.length) : compare (value ds) (value es) = compare ds es := by
  induction ds generalizing es with
  | nil =>
    obtain rfl := List.length_eq_zero_iff.mp same.symm
    rfl
  | cons d ds ih =>
    cases es with
    | nil => cases same
    | cons e es =>
      have same' : ds.length = es.length := Nat.succ.inj same
      rw [List.compare_cons_cons]
      rcases Nat.lt_trichotomy d.toNat e.toNat with less | equal | greater
      · rw [Std.compare_eq_lt.mpr (UInt8.lt_iff_toNat_lt.mpr less),
          Nat.compare_eq_lt.mpr (value_lt_of_head_lt digits same' less)]
        rfl
      · obtain rfl := UInt8.toNat_inj.mp equal
        have others := ih (List.forall_mem_cons.mp digits).2 (List.forall_mem_cons.mp digits').2 same'
        rw [value_cons, value_cons, same', compare_add, others]
        simp
      · rw [Std.compare_eq_gt.mpr (UInt8.lt_iff_toNat_lt.mpr greater),
          Nat.compare_eq_gt.mpr (value_lt_of_head_lt digits' same'.symm greater)]
        rfl

theorem allDigits_significant (digits : AllDigits ds) : AllDigits (significant ds) := by
  intro b hb
  exact digits b ((List.dropWhile_sublist _).subset hb)

theorem head_significant (ds : List UInt8) : ∀ d ∈ (significant ds).head?, d ≠ 0x30 := by
  intro d hd
  have first := List.head?_dropWhile_not (· == 0x30) ds
  rw [← significant, Option.mem_def.mp hd] at first
  exact ne_of_beq_false first

/-- Runs are compared as the numbers that they denote. -/
theorem compareRuns_eq (digits : AllDigits ds) (digits' : AllDigits es) :
    compareRuns ds es = compare (value ds) (value es) := by
  have own := allDigits_significant digits
  have own' := allDigits_significant digits'
  rw [compareRuns, ← value_significant ds, ← value_significant es]
  rw [← significant, ← significant]
  rcases Nat.lt_trichotomy (significant ds).length (significant es).length with
    shorter | same | longer
  · rw [Nat.compare_eq_lt.mpr shorter,
      Nat.compare_eq_lt.mpr (value_lt_of_length_lt own own' (head_significant es) shorter)]
    rfl
  · rw [compare_value own own' same, Nat.compare_eq_eq.mpr same]
    rfl
  · rw [Nat.compare_eq_gt.mpr longer,
      Nat.compare_eq_gt.mpr (value_lt_of_length_lt own' own (head_significant ds) longer)]
    rfl

/-! ## The text and the number of a name -/

/-- The text before the digits at the end. -/
def textBefore (name : String) : String := .ofList (name.toList.rdropWhile Char.isDigit)

/-- The digits at the end. -/
def digitsAtEnd (name : String) : List Char := name.toList.rtakeWhile Char.isDigit

/-- The number that digits denote.  No digits denote zero. -/
def numeral (digits : List Char) : Nat :=
  Nat.ofDigits 10 (digits.map (·.toNat - '0'.toNat)).reverse

theorem isDigit_of_mem_utf8EncodeChar {c : Char} {b : UInt8}
    (mem : b ∈ String.utf8EncodeChar c) : isDigit b = c.isDigit := by
  have onChar : c.isDigit = true ↔ 0x30 ≤ c.toNat ∧ c.toNat ≤ 0x39 := by
    simp [Char.isDigit, UInt32.le_iff_toNat_le]
  rw [Bool.eq_iff_iff, isDigit_iff, onChar]
  by_cases ascii : c.toNat < 128
  · rw [utf8EncodeChar_of_ascii ascii, List.mem_singleton] at mem
    rw [mem, toNat_toUInt8 ascii]
  · have large := le_of_mem_utf8EncodeChar (Nat.le_of_not_lt ascii) mem
    omega

theorem ascii_of_isDigit {c : Char} (digit : c.isDigit = true) : c.toNat < 128 := by
  simp only [Char.isDigit, Bool.and_eq_true, decide_eq_true_eq, UInt32.le_iff_toNat_le] at digit
  exact Nat.lt_of_le_of_lt digit.2 (by decide)

theorem bytesOf_digits {cs : List Char} (digits : ∀ c ∈ cs, c.isDigit = true) :
    bytesOf cs = cs.map Char.toUInt8 := by
  induction cs with
  | nil => rfl
  | cons c cs ih =>
    obtain ⟨first, others⟩ := List.forall_mem_cons.mp digits
    rw [bytesOf_cons, utf8EncodeChar_of_ascii (ascii_of_isDigit first), ih others]
    rfl

/-- The cut before the digits, in bytes.  The induction is on the characters from the end. -/
theorem stem_bytesOf (cs : List Char) :
    stem (bytesOf cs) = bytesOf (cs.rdropWhile Char.isDigit) := by
  induction cs using List.reverseRecOn with
  | nil => rfl
  | append_singleton cs c ih =>
    have single : bytesOf [c] = String.utf8EncodeChar c := by
      rw [bytesOf_cons]
      exact List.append_nil _
    rw [bytesOf_append, single]
    cases digit : c.isDigit with
    | true =>
      have byte := utf8EncodeChar_of_ascii (ascii_of_isDigit digit)
      have isDigit : isDigit c.toUInt8 = true := by
        rw [isDigit_of_mem_utf8EncodeChar (c := c) (by rw [byte]; exact List.mem_singleton_self _),
          digit]
      rw [List.rdropWhile_concat_pos _ _ _ digit, ← ih, byte]
      exact List.rdropWhile_concat_pos _ _ _ isDigit
    | false =>
      have bytes : String.utf8EncodeChar c ≠ [] := by
        obtain ⟨b, bs, ascii⟩ := exists_asciiBytes c
        rw [ascii.bytes]
        exact List.cons_ne_nil b bs
      obtain ⟨bs, b, split⟩ := (List.eq_nil_or_concat' _).resolve_left bytes
      have other : ¬ isDigit b = true := by
        rw [isDigit_of_mem_utf8EncodeChar (c := c) (by simp [split]), digit]
        exact Bool.false_ne_true
      rw [List.rdropWhile_concat_neg _ _ _ (by simp [digit]), bytesOf_append, single, split,
        ← List.append_assoc]
      exact List.rdropWhile_concat_neg _ _ _ other

theorem run_bytesOf (cs : List Char) :
    run (bytesOf cs) = bytesOf (cs.rtakeWhile Char.isDigit) := by
  have parts := stem_append_run (bytesOf cs)
  rw [stem_bytesOf] at parts
  refine List.append_cancel_left (parts.trans ?_)
  rw [← bytesOf_append, List.rdropWhile_append_rtakeWhile]

theorem stem_encode (name : String) : stem (Utf8.encode name) = Utf8.encode (textBefore name) := by
  rw [← String.ofList_toList (s := name), textBefore, String.toList_ofList]
  exact stem_bytesOf name.toList

/-- The run denotes the number at the end. -/
theorem value_run_encode (name : String) :
    value (run (Utf8.encode name)) = numeral (digitsAtEnd name) := by
  have digits : ∀ c ∈ digitsAtEnd name, c.isDigit = true := fun c => List.mem_rtakeWhile_imp
  have bytes : run (Utf8.encode name) = bytesOf (digitsAtEnd name) := by
    rw [← String.ofList_toList (s := name), digitsAtEnd, String.toList_ofList]
    exact run_bytesOf name.toList
  rw [bytes, bytesOf_digits digits, value, numeral, List.map_map]
  congr 2
  refine List.map_congr_left fun c mem => ?_
  show c.toUInt8.toNat - 0x30 = _
  rw [toNat_toUInt8 (ascii_of_isDigit (digits c mem))]
  rfl

theorem allDigits_run (bytes : List UInt8) : AllDigits (run bytes) := by
  intro b mem
  exact List.mem_rtakeWhile_imp (p := isDigit) (l := bytes) mem

/-- Names are compared by the text before the digits, then by the number, then by all bytes. -/
theorem cmp_eq (a b : String) :
    cmp a b = (compare (Utf8.encode (textBefore a)) (Utf8.encode (textBefore b))).then
      ((compare (numeral (digitsAtEnd a)) (numeral (digitsAtEnd b))).then
        (compare (Utf8.encode a) (Utf8.encode b))) := by
  rw [cmp, compareBytes, compareRuns_eq (allDigits_run _) (allDigits_run _), value_run_encode,
    value_run_encode, stem_encode, stem_encode]

/-! ## Names without a number -/

theorem compare_append (bs cs : List UInt8) : compare bs (bs ++ cs) = compare [] cs := by
  induction bs with
  | nil => rfl
  | cons b bs ih =>
    rw [List.cons_append, List.compare_cons_cons, ih]
    simp

theorem encode_eq (name : String) :
    Utf8.encode name = Utf8.encode (textBefore name) ++ bytesOf (digitsAtEnd name) := by
  rw [textBefore, digitsAtEnd]
  show _ = bytesOf _ ++ _
  rw [← bytesOf_append, List.rdropWhile_append_rtakeWhile, bytesOf, String.ofList_toList]

/-- With one text before, the name without digits is first. -/
theorem cmp_lt_of_no_digits {a b : String} (same : textBefore a = textBefore b)
    (none : digitsAtEnd a = []) (some : digitsAtEnd b ≠ []) : cmp a b = .lt := by
  have bytes : compare (Utf8.encode a) (Utf8.encode b) = .lt := by
    obtain ⟨c, cs, digits⟩ := List.exists_cons_of_ne_nil some
    have whole : Utf8.encode a = Utf8.encode (textBefore b) := by
      rw [encode_eq a, none, same]
      exact List.append_nil _
    rw [encode_eq b, ← whole, compare_append, digits]
    obtain ⟨b, bs, ascii⟩ := exists_asciiBytes c
    rw [ascii.bytesOf_cons]
    rfl
  rw [cmp_eq, same, none, bytes]
  cases number : numeral (digitsAtEnd b) with
  | zero => simp [numeral]
  | succ n => simp [numeral, Nat.compare_eq_lt.mpr (Nat.succ_pos n)]

/-! ## The natural order -/

/-- The natural order is total, and it goes by the text before the digits, by the number and by
all bytes.  The sorted names are in this order, and they do not depend on the order in which the
names were given. -/
theorem order_and_sort (a b c : String) (names names' : List String) :
    cmp a b = (cmp b a).swap ∧
    (cmp a b = .eq ↔ a = b) ∧
    ((cmp a b).isLE = true → (cmp b c).isLE = true → (cmp a c).isLE = true) ∧
    cmp a b = (compare (Utf8.encode (textBefore a)) (Utf8.encode (textBefore b))).then
      ((compare (numeral (digitsAtEnd a)) (numeral (digitsAtEnd b))).then
        (compare (Utf8.encode a) (Utf8.encode b))) ∧
    (textBefore a = textBefore b → digitsAtEnd a = [] → digitsAtEnd b ≠ [] → cmp a b = .lt) ∧
    (sort names).Perm names ∧
    (sort names).Pairwise (fun x y => (cmp x y).isLE = true) ∧
    (names'.Perm names → sort names' = sort names) ∧
    sort (sort names) = sort names :=
  ⟨Std.OrientedCmp.eq_swap, Std.LawfulEqCmp.compare_eq_iff_eq, Std.TransCmp.isLE_trans, cmp_eq a b,
    cmp_lt_of_no_digits, sort_perm names, pairwise_sort names, sort_congr, sort_sort names⟩

/-- Names that are in order by their numbers, and not by their digits. -/
theorem order_and_sort_of_numbers :
    cmp "lib" "lib10" = .lt ∧ (cmp "lib2" "lib1x").isLE = true ∧
      sort ["lib1x", "lib", "lib10", "lib2"] = sort ["lib2", "lib10", "lib1x", "lib"] := by
  obtain ⟨-, -, trans, -⟩ := order_and_sort "lib2" "lib10" "lib1x" [] []
  obtain ⟨-, -, -, -, first, -, -, perm, -⟩ := order_and_sort "lib" "lib10" ""
    ["lib2", "lib10", "lib1x", "lib"] ["lib1x", "lib", "lib10", "lib2"]
  exact ⟨first (by decide) (by decide) (by decide),
    trans (by decide +kernel) (by decide +kernel), perm (by decide)⟩

end ImportTidy.NaturalOrder
