import ImportTidy.Proofs.Idempotence
import ImportTidy.Proofs.Rereading

/-!
# Raising the limit of a line

A source that is read under some limit is read alike under every greater one, as long as
the two bytes that a read takes more than the limit fit in a word.  Each read gives a whole
line, and a whole line is cut alike under every greater limit (`Feed.after_raise`).

For the two greatest limits the number of bytes that a read takes wraps.  No statement is
read under them.  Under the greatest but one no byte is taken, so every source is tidied to
nothing.  Under the greatest a read takes one byte, which is a text if it is a character of
its own.  So a source of such characters is tidied to nothing, and every other source is
faulty.

`reorganize_raise_iff` says exactly when a greater limit gives the same where sums wrap.  A
build with checked sums panics under the two greatest limits, and is the same under all others
(`Build.tidy_raise_iff`).
-/

namespace ImportTidy

/-! ## Greater limits -/

/-- A line that is read is given under every greater limit. -/
theorem judgeLine_raise {limit limit' : UInt64} (le : limit ≤ limit') {n : Nat}
    {line : List UInt8} {text : String} (gives : judgeLine limit n line = .ok text) :
    judgeLine limit' n line = .ok text := by
  have le' : limit.toNat ≤ limit'.toNat := UInt64.le_iff_toNat_le.mp le
  have decoded := decode_of_judgeLine gives
  rw [judgeLine] at gives ⊢
  split at gives
  next => cases gives
  next short => rw [if_neg (by omega), decoded]

/-- What is read without a fault is read alike under every greater limit, if a read takes two
bytes more than that. -/
theorem Feed.after_raise {limit limit' : UInt64} (small : limit'.toNat < UInt64.size - 2)
    (le : limit ≤ limit') {n : Nat} {bytes : List UInt8}
    (ok : ∀ r ∈ Feed.after limit n bytes, ∃ text, r = .ok text) :
    Feed.after limit' n bytes = Feed.after limit n bytes := by
  have le' : limit.toNat ≤ limit'.toNat := UInt64.le_iff_toNat_le.mp le
  have small₀ : limit.toNat < UInt64.size - 2 := Nat.lt_of_le_of_lt le' small
  have spans : readSpan limit ≤ readSpan limit' := by
    rw [readSpan_eq small₀, readSpan_eq small]
    omega
  induction n, bytes using Feed.after.induct limit with
  | case1 n bytes rest cut =>
    obtain rfl := eq_nil_of_cutLine (readSpan_pos small₀) cut
    rw [Feed.after_nil, Feed.after_nil]
  | case2 n bytes b line rest cut ih =>
    rw [Feed.after_of_cut cut] at ok ⊢
    obtain ⟨⟨text, gives⟩, others⟩ := List.forall_mem_cons.mp ok
    have whole := whole_of_judgeLine small₀ gives
    have cut' : cutLine (readSpan limit') bytes = (b :: line, rest) := by
      rw [← cut]
      exact cutLine_of_whole (by rwa [cut]) spans
    rw [Feed.after_of_cut cut', judgeLine_raise le gives, gives, ih others]

/-- So the same is made of a source. -/
theorem reorganize_raise {settings : SortSettings} {limit limit' : UInt64}
    (small : limit'.toNat < UInt64.size - 2) (le : limit ≤ limit') {source out : String}
    (made : reorganize { settings with maxLineLength := limit } source = .ok out) :
    reorganize { settings with maxLineLength := limit' } source = .ok out := by
  obtain ⟨S, reads, rendered⟩ := reorganize_eq_ok_iff_reads.mp made
  have feed : Feed.ofText limit' source = Feed.ofText limit source :=
    Feed.after_raise small le (TokenStream.ok_of_unfailing reads.unfailing)
  refine reorganize_eq_ok_iff_reads.mpr ⟨S, ?_, rendered⟩
  rw [feed]
  exact reads

/-! ## Feeds without statements -/

/-- Tokens without a keyword and without a failed read hold no statement and no fault. -/
theorem Grammar.reads_nil {tokens : TokenStream} (unfailing : tokens.Unfailing)
    (noKeyword : tokens.Holds fun t => t.kind ≠ .importWord ∧ t.kind ≠ .fromWord) (fresh : Bool) :
    Reads fresh tokens [] none := by
  induction tokens generalizing fresh with
  | finish line => exact .finish
  | token t rest ih => exact .skip (fun _ => noKeyword.1) (ih unfailing noKeyword.2 _)
  | failed n e rest => cases unfailing

theorem TokenStream.unfailing_of_ok {feed : Feed} (ok : ∀ r ∈ feed, ∃ text, r = .ok text)
    (n : Nat) : (TokenStream.after n feed).Unfailing := by
  induction feed generalizing n with
  | nil => trivial
  | cons read feed ih =>
    obtain ⟨⟨text, rfl⟩, others⟩ := List.forall_mem_cons.mp ok
    exact unfailing_ofTokens.mpr (ih others (n + 1))

/-- Where a read takes one byte or none, nothing is made, and only a failed read is a fault. -/
theorem reorganize_of_great_limit {settings : SortSettings}
    (great : ¬ settings.maxLineLength.toNat < UInt64.size - 2) {source out : String} :
    reorganize settings source = .ok out ↔
      out = "" ∧ ∀ r ∈ Feed.ofText settings.maxLineLength source, ∃ text, r = .ok text := by
  constructor
  · intro made
    obtain ⟨S, reads, -⟩ := reorganize_eq_ok_iff_reads.mp made
    obtain ⟨read, rendered⟩ := reorganize_eq_ok_iff.mp made
    exact ⟨rendered.symm.trans (render_of_great_limit great read),
      TokenStream.ok_of_unfailing reads.unfailing⟩
  · rintro ⟨rfl, ok⟩
    have noKeyword := no_keyword_of_great_limit great (Utf8.encode source)
    have reads := Grammar.reads_nil (TokenStream.unfailing_of_ok ok 0) noKeyword true
    refine reorganize_eq_ok_iff_reads.mpr ⟨[], reads, ?_⟩
    cases settings.squash <;> rfl

/-- A read of one byte gives a text if the byte is a character of its own. -/
theorem Utf8.isOk_decode_byte (b : UInt8) : (decode [b]).isOk = decide (b < 0x80) := by
  have all : ∀ n : Fin 256, (decode [UInt8.ofNat n]).isOk = decide (UInt8.ofNat n < 0x80) := by
    decide +kernel
  simpa using all ⟨b.toNat, b.toNat_lt⟩

/-- Reads of one byte give texts only, if every byte is a character of its own. -/
theorem Feed.ok_iff_of_byte {limit : UInt64} (last : limit.toNat = UInt64.size - 1) (n : Nat)
    (bytes : List UInt8) :
    (∀ r ∈ Feed.after limit n bytes, ∃ text, r = .ok text) ↔ ∀ b ∈ bytes, b < 0x80 := by
  have span : readSpan limit = 1 := by
    rw [readSpan, UInt64.toNat_add, last]
    rfl
  induction bytes generalizing n with
  | nil => simp [Feed.after_nil]
  | cons b bytes ih =>
    have cut : cutLine (readSpan limit) (b :: bytes) = ([b], bytes) := by
      rw [span, cutLine]
      split <;> rfl
    have content : (lineContent [b]).length ≤ 1 := by
      simp only [lineContent, List.reverse_singleton]
      split <;> simp
    have judged : judgeLine limit (n + 1) [b] =
        (Utf8.decode [b]).mapError fun fault => .io (.illFormed fault) := by
      have room : 1 ≤ limit.toNat := by
        rw [last]
        decide
      rw [judgeLine, if_neg (by omega)]
      cases Utf8.decode [b] <;> rfl
    rw [Feed.after_of_cut cut, List.forall_mem_cons, List.forall_mem_cons, judged]
    refine and_congr ?_ (ih (n + 1))
    have own := Utf8.isOk_decode_byte b
    cases decoded : Utf8.decode [b] with
    | ok text =>
      rw [decoded] at own
      exact iff_of_true ⟨text, rfl⟩ (of_decide_eq_true own.symm)
    | error fault =>
      rw [decoded] at own
      refine iff_of_false ?_ (of_decide_eq_false own.symm)
      rintro ⟨text, same⟩
      cases same

/-! ## The exact condition -/

/-- What is made of a source under some limit is made of it under a greater one exactly if a
read takes two bytes more than that.  Where this number wraps, nothing is made, and the source
has to be read without a fault. -/
theorem reorganize_raise_iff {settings : SortSettings} {limit limit' : UInt64}
    (le : limit ≤ limit') {source out : String}
    (made : reorganize { settings with maxLineLength := limit } source = .ok out) :
    reorganize { settings with maxLineLength := limit' } source = .ok out ↔
      limit'.toNat < UInt64.size - 2 ∨ limit' = limit ∨
        out = "" ∧ (limit'.toNat = UInt64.size - 2 ∨ ∀ b ∈ Utf8.encode source, b < 0x80) := by
  by_cases small : limit'.toNat < UInt64.size - 2
  · exact iff_of_true (reorganize_raise small le made) (.inl small)
  by_cases same : limit' = limit
  · exact iff_of_true (same ▸ made) (.inr (.inl same))
  have bound : limit'.toNat < UInt64.size := limit'.toNat_lt
  rw [reorganize_of_great_limit small, or_iff_right small, or_iff_right same]
  refine and_congr_right fun _ => ?_
  by_cases nothing : limit'.toNat = UInt64.size - 2
  · have span : readSpan limit' = 0 := by
      rw [readSpan, UInt64.toNat_add, nothing]
      rfl
    have feed : Feed.ofText limit' source = [] :=
      Feed.after_of_no_cut (by rw [span, cutLine]) 0
    rw [feed]
    exact iff_of_true (List.forall_mem_nil _) (.inl nothing)
  · have last : limit'.toNat = UInt64.size - 1 := by omega
    rw [or_iff_right nothing]
    exact Feed.ok_iff_of_byte last 0 (Utf8.encode source)

theorem reorganize_module : reorganize {} "import a\n" = .ok "import a\n" := by
  have run : Session.runBytes {} {} (Utf8.encode "import a\n") =
      (⟨({} : Arena).alloc "a", [⟨.plain, [0], 1⟩]⟩, none) := by
    decide +kernel
  have shown : Session.Shows ⟨({} : Arena).alloc "a", [⟨.plain, [0], 1⟩]⟩ [⟨.plain, ["a"], 1⟩] :=
    .cons ⟨rfl, by decide +kernel, rfl⟩ .nil
  rw [reorganize_eq_ok_iff, run, shown.render]
  simp only [renderBlocks, List.map_cons, List.map_nil, Block.render, NaturalOrder.sort,
    List.mergeSort_singleton]
  decide +kernel

/-! ## Builds -/

namespace Build

variable {b : Build}

theorem panics_eq_true_iff {limit : UInt64} :
    b.panics limit = true ↔ b = .checked ∧ ¬ limit.toNat < UInt64.size - 2 := by
  have word : 2 ≤ UInt64.size := by decide
  simp only [panics, Bool.and_eq_true, decide_eq_true_eq]
  refine and_congr_right fun _ => ?_
  omega

theorem tidy_eq_some_iff {settings : SortSettings} {source : String}
    {made : Except ParseError String} :
    b.tidy settings source = some made ↔
      (b = .wrapping ∨ settings.maxLineLength.toNat < UInt64.size - 2) ∧
        reorganize settings source = made := by
  have either : b.panics settings.maxLineLength = false ↔
      b = .wrapping ∨ settings.maxLineLength.toNat < UInt64.size - 2 := by
    rw [← Bool.not_eq_true, panics_eq_true_iff, not_and_or, not_not]
    cases b <;> simp
  rw [← either, tidy]
  cases b.panics settings.maxLineLength with
  | true => simp
  | false => simp

/-- What a build makes of a source under some limit it makes of it under a greater one exactly
if a read takes two bytes more than that.  Where this number does not fit into a word, checked
sums panic.  Sums that wrap make nothing then, and the source has to be read without a fault. -/
theorem tidy_raise_iff {settings : SortSettings} {limit limit' : UInt64} (le : limit ≤ limit')
    {source out : String}
    (made : b.tidy { settings with maxLineLength := limit } source = some (.ok out)) :
    b.tidy { settings with maxLineLength := limit' } source = some (.ok out) ↔
      limit'.toNat < UInt64.size - 2 ∨ b = .wrapping ∧ (limit' = limit ∨
        out = "" ∧ (limit'.toNat = UInt64.size - 2 ∨ ∀ byte ∈ Utf8.encode source, byte < 0x80)) := by
  rw [tidy_eq_some_iff, reorganize_raise_iff le (tidy_eq_some_iff.mp made).2]
  tauto

/-- A greater limit under which a build with checked sums panics. -/
theorem tidy_raise_iff_of_overflow :
    checked.tidy { ({} : SortSettings) with maxLineLength := 512 } "import a\n" =
        some (.ok "import a\n") ∧
      (checked.tidy { ({} : SortSettings) with maxLineLength := 0xFFFFFFFFFFFFFFFE } "import a\n" =
          some (.ok "import a\n") ↔
        (0xFFFFFFFFFFFFFFFE : UInt64).toNat < UInt64.size - 2 ∨ checked = .wrapping ∧
          ((0xFFFFFFFFFFFFFFFE : UInt64) = 512 ∨ "import a\n" = "" ∧
            ((0xFFFFFFFFFFFFFFFE : UInt64).toNat = UInt64.size - 2 ∨
              ∀ byte ∈ Utf8.encode "import a\n", byte < 0x80))) := by
  have made : checked.tidy { ({} : SortSettings) with maxLineLength := 512 } "import a\n" =
      some (.ok "import a\n") := tidy_eq_some_iff.mpr ⟨.inr (by decide), reorganize_module⟩
  exact ⟨made, tidy_raise_iff (by decide) made⟩

/-- A greater limit never changes what the build makes of a source. -/
def KeepsResults (b : Build) : Prop :=
  ∀ (settings : SortSettings) (limit limit' : UInt64) (source out : String), limit ≤ limit' →
    ({ settings with maxLineLength := limit } : SortSettings).fault? = none →
    ({ settings with maxLineLength := limit' } : SortSettings).fault? = none →
    b.tidy { settings with maxLineLength := limit } source = some (.ok out) →
    b.tidy { settings with maxLineLength := limit' } source = some (.ok out)

/-- So a greater limit can lose every statement, or the whole run, though the settings are
valid. -/
theorem not_keepsResults :
    (wrapping.tidy { ({} : SortSettings) with maxLineLength := 0xFFFFFFFFFFFFFFFE } "import a\n" =
        some (.ok "") ∧ ¬ wrapping.KeepsResults) ∧
      (checked.tidy { ({} : SortSettings) with maxLineLength := 0xFFFFFFFFFFFFFFFE } "import a\n" =
        none ∧ ¬ checked.KeepsResults) := by
  have small : ∀ b : Build, b.tidy { ({} : SortSettings) with maxLineLength := 512 } "import a\n" =
      some (.ok "import a\n") :=
    fun b => tidy_eq_some_iff.mpr ⟨.inr (by decide), reorganize_module⟩
  have nothing : reorganize { ({} : SortSettings) with maxLineLength := 0xFFFFFFFFFFFFFFFE }
      "import a\n" = .ok "" := by
    decide +kernel
  have wraps : wrapping.tidy { ({} : SortSettings) with maxLineLength := 0xFFFFFFFFFFFFFFFE }
      "import a\n" = some (.ok "") := tidy_eq_some_iff.mpr ⟨.inl rfl, nothing⟩
  have panics : checked.tidy { ({} : SortSettings) with maxLineLength := 0xFFFFFFFFFFFFFFFE }
      "import a\n" = none := rfl
  refine ⟨⟨wraps, fun keeps => ?_⟩, panics, fun keeps => ?_⟩
  · have same := keeps {} 512 0xFFFFFFFFFFFFFFFE _ _ (by decide) rfl rfl (small wrapping)
    rw [wraps] at same
    exact absurd same (by decide)
  · have same := keeps {} 512 0xFFFFFFFFFFFFFFFE _ _ (by decide) rfl rfl (small checked)
    rw [panics] at same
    cases same

end Build

end ImportTidy
