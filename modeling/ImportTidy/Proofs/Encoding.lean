import ImportTidy.Proofs.Json
import ImportTidy.Report.Format

/-!
# Reports that are read back

The JSON of a report holds the report and nothing else: it is parsed to the tree that was
written, since all its numbers are natural numbers, and each record is read from its members
(`Report.toJson?_of_fits`).  So reports with one text are the same.

What a report does not have is not written, and what was not written is read as absent.  A list
of failures is written only where it has items, and a group has its source and its category only
where there are any.

Numbers are read into words, so they have to fit, and a path is written only where it is a
text (`Report.Fits`).
-/

namespace ImportTidy

open Json (Whole)

/-! ## Reports that can be written -/

/-- The path is a text, and the lines of the groups fit into words. -/
structure FileReport.Fits (f : FileReport) : Prop where
  path : ∃ text : String, f.path = text
  lines : ∀ g ∈ f.groups, g.line < UInt64.size

/-- All counts. -/
def Stats.counts (s : Stats) : List Nat :=
  [s.files, s.failures, s.groups, s.sourceGroups, s.plainGroups, s.names, s.known, s.relative,
   s.standard, s.unknown]

/-- All paths of the report are texts, and all its numbers fit into words. -/
structure Report.Fits (r : Report) : Prop where
  files : ∀ f ∈ r.files, f.Fits
  failures : ∀ f ∈ r.failures, ∃ text : String, f.path = text
  stats : ∀ n ∈ r.stats.counts, n < UInt64.size
  duration : r.metadata.duration < UInt64.size

/-! ## Records are read from their members -/

/-- Items are read if each of them is. -/
theorem mapM_map_eq_some {α β : Type} {write : α → β} {read : β → Option α} {xs : List α}
    (each : ∀ x ∈ xs, read (write x) = some x) : (xs.map write).mapM read = some xs := by
  induction xs with
  | nil => rfl
  | cons x xs ih =>
    obtain ⟨first, others⟩ := List.forall_mem_cons.mp each
    rw [List.map_cons, List.mapM_cons, first, ih others]
    rfl

theorem Json.texts?_array (texts : List String) :
    (Json.array (texts.map .string)).texts? = some texts := mapM_map_eq_some fun _ _ => rfl

theorem Json.word?_natural {n : Nat} (fits : n < UInt64.size) :
    (Json.natural n).word? = some n := if_pos fits

theorem Category.ofJson?_label (c : Category) :
    Category.ofJson? (.string c.label) = some c := ofLabel?_label c

theorem GroupReport.ofJson?_members {g : GroupReport} (fits : g.line < UInt64.size) :
    GroupReport.ofJson? (.object g.members) = some g := by
  obtain ⟨kind, source, names, line, category⟩ := g
  have word : (Json.natural line).word? = some line := Json.word?_natural fits
  -- Which members there are depends on what the group has.
  cases source <;> cases category <;>
    simp [ofJson?, members, Json.fields?, Json.member?, Json.text?, Json.textOrNull?,
      Json.texts?_array, word, Category.ofJsonOrNull?, Category.ofJson?_label]

theorem FileReport.ofJson?_members {f : FileReport} {path : String} (fits : f.Fits)
    (isPath : f.path = path) : FileReport.ofJson? (.object (f.members path)) = some f := by
  have groups : (f.groups.map fun g => Json.object g.members).mapM GroupReport.ofJson? =
      some f.groups :=
    mapM_map_eq_some fun g mem => GroupReport.ofJson?_members (fits.lines g mem)
  simp [ofJson?, members, Json.fields?, Json.member?, Json.text?, Json.items?, -List.mapM_map,
    groups, ← isPath]

theorem FileFailure.ofJson?_members {f : FileFailure} {path : String} (isPath : f.path = path) :
    FileFailure.ofJson? (.object (f.members path)) = some f := by
  simp [ofJson?, members, Json.fields?, Json.member?, Json.text?, ← isPath]

theorem Stats.ofJson?_members {s : Stats} (fits : ∀ n ∈ s.counts, n < UInt64.size) :
    Stats.ofJson? (.object s.members) = some s := by
  simp only [counts, List.forall_mem_cons] at fits
  simp [ofJson?, members, Json.fields?, Json.member?, Json.word?_natural, fits]

theorem Metadata.ofJson?_members {m : Metadata} (fits : m.duration < UInt64.size) :
    Metadata.ofJson? (.object m.members) = some m := by
  simp [ofJson?, members, Json.fields?, Json.member?, Json.text?, Json.word?_natural fits]

/-! ## What is absent has no member -/

theorem GroupReport.member?_source (g : GroupReport) :
    (Json.object g.members).member? "source" = g.source.map .string := by
  obtain ⟨kind, source, names, line, category⟩ := g
  cases source <;> cases category <;> simp [members, Json.member?]

theorem GroupReport.member?_import_type (g : GroupReport) :
    (Json.object g.members).member? "import_type" = g.category.map (.string ·.label) := by
  obtain ⟨kind, source, names, line, category⟩ := g
  cases source <;> cases category <;> simp [members, Json.member?]

/-! ## All numbers are natural numbers -/

theorem whole_texts (texts : List String) : Whole (.array (texts.map .string)) :=
  .array (List.forall_mem_map.mpr fun text _ => .string text)

/-- A list of records is whole if the members of each are. -/
theorem whole_records {α : Type} {members : α → List (String × Json)} {xs : List α}
    (each : ∀ x ∈ xs, ∀ m ∈ members x, Whole m.2) :
    Whole (.array (xs.map fun x => .object (members x))) :=
  .array (List.forall_mem_map.mpr fun x mem => .object (each x mem))

theorem GroupReport.whole_members (g : GroupReport) : ∀ m ∈ g.members, Whole m.2 := by
  obtain ⟨kind, source, names, line, category⟩ := g
  cases source <;> cases category <;>
    simp [members, Whole.string, Whole.natural, whole_texts]

theorem FileReport.whole_members (f : FileReport) (path : String) :
    ∀ m ∈ f.members path, Whole m.2 := by
  have groups := whole_records fun (g : GroupReport) (_ : g ∈ f.groups) => g.whole_members
  simp [members, Whole.string, groups]

theorem FileFailure.whole_members (f : FileFailure) (path : String) :
    ∀ m ∈ f.members path, Whole m.2 := by
  simp [members, Whole.string]

theorem Stats.whole_members (s : Stats) : ∀ m ∈ s.members, Whole m.2 := by
  simp [members, Whole.natural]

theorem Metadata.whole_members (d : Metadata) : ∀ m ∈ d.members, Whole m.2 := by
  simp [members, Whole.string, Whole.natural]

theorem Report.whole_members (r : Report) {files failures : List Json}
    (wholeFiles : ∀ v ∈ files, Whole v) (wholeFailures : ∀ v ∈ failures, Whole v) :
    ∀ m ∈ r.members files failures, Whole m.2 := by
  have stats : Whole (.object r.stats.members) := .object r.stats.whole_members
  have metadata : Whole (.object r.metadata.members) := .object r.metadata.whole_members
  cases none : failures.isEmpty <;>
    simp [members, none, Whole.array wholeFiles, Whole.array wholeFailures, stats, metadata]

/-! ## The tree of a report -/

/-- The value holds all of `x`, and its numbers are natural numbers. -/
structure Holds {α : Type} (read : Json → Option α) (x : α) (v : Json) : Prop where
  read : read v = some x
  whole : Whole v

theorem FileReport.toJson?_of_fits {f : FileReport} (fits : f.Fits) :
    ∃ v, f.toJson? = some v ∧ Holds ofJson? f v := by
  obtain ⟨path, isPath⟩ := fits.path
  refine ⟨.object (f.members path), ?_, ofJson?_members fits isPath, .object (f.whole_members path)⟩
  rw [toJson?, isPath, RawText.text?_ofText]
  rfl

theorem FileFailure.toJson?_of_text {f : FileFailure} (isText : ∃ text : String, f.path = text) :
    ∃ v, f.toJson? = some v ∧ Holds ofJson? f v := by
  obtain ⟨path, isPath⟩ := isText
  refine ⟨.object (f.members path), ?_, ofJson?_members isPath, .object (f.whole_members path)⟩
  rw [toJson?, isPath, RawText.text?_ofText]
  rfl

/-- Items have values that hold them if each of them has one. -/
theorem exists_mapM_holds {α : Type} {write : α → Option Json} {read : Json → Option α}
    {xs : List α} (each : ∀ x ∈ xs, ∃ v, write x = some v ∧ Holds read x v) :
    ∃ vs, xs.mapM write = some vs ∧ vs.mapM read = some xs ∧ (∀ v ∈ vs, Whole v) ∧
      (vs = [] ↔ xs = []) := by
  induction xs with
  | nil => exact ⟨[], rfl, rfl, nofun, by simp⟩
  | cons x xs ih =>
    obtain ⟨⟨v, written, holds⟩, others⟩ := List.forall_mem_cons.mp each
    obtain ⟨vs, writtenAll, readAll, whole, -⟩ := ih others
    refine ⟨v :: vs, ?_, ?_, List.forall_mem_cons.mpr ⟨holds.whole, whole⟩, by simp⟩
    · rw [List.mapM_cons, written, writtenAll]
      rfl
    · rw [List.mapM_cons, holds.read, readAll]
      rfl

theorem Report.ofJson?_members {r : Report} (fits : r.Fits) {files failures : List Json}
    (readFiles : files.mapM FileReport.ofJson? = some r.files)
    (readFailures : failures.mapM FileFailure.ofJson? = some r.failures) :
    Report.ofJson? (.object (r.members files failures)) = some r := by
  obtain ⟨rFiles, rFailures, stats, metadata⟩ := r
  have readStats : Stats.ofJson? (.object stats.members) = some stats :=
    Stats.ofJson?_members fits.stats
  have readMetadata : Metadata.ofJson? (.object metadata.members) = some metadata :=
    Metadata.ofJson?_members fits.duration
  cases failures with
  | nil =>
    obtain rfl : [] = rFailures := Option.some_inj.mp readFailures
    simp [members, ofJson?, Json.fields?, Json.member?, Json.items?, readFiles, readStats,
      readMetadata]
  | cons v others =>
    simp [members, ofJson?, Json.fields?, Json.member?, Json.items?, readFiles, readFailures,
      readStats, readMetadata]

theorem Report.member?_failures (r : Report) (files failures : List Json) :
    (Json.object (r.members files failures)).member? "failures" = none ↔ failures = [] := by
  cases failures <;> simp [members, Json.member?]

/-- A report that fits is written as a value that holds it.  The value has failures only where
the report has some. -/
theorem Report.toJson?_of_fits {r : Report} (fits : r.Fits) :
    ∃ v, r.toJson? = some v ∧ Holds ofJson? r v ∧
      (v.member? "failures" = none ↔ r.failures = []) := by
  obtain ⟨files, writtenFiles, readFiles, wholeFiles, -⟩ :=
    exists_mapM_holds fun f mem => FileReport.toJson?_of_fits (fits.files f mem)
  obtain ⟨failures, writtenFailures, readFailures, wholeFailures, none⟩ :=
    exists_mapM_holds fun f mem => FileFailure.toJson?_of_text (fits.failures f mem)
  refine ⟨.object (r.members files failures), ?_,
    ⟨ofJson?_members fits readFiles readFailures,
      .object (r.whole_members wholeFiles wholeFailures)⟩,
    (r.member?_failures files failures).trans none⟩
  rw [toJson?, members?, writtenFiles, writtenFailures]
  rfl

/-! ## The text of a report -/

/-- The JSON of a report is parsed to the tree of its members, and the report is read from it.
Two reports with the same JSON are the same.  What a report does not have is not written: the
failures where there are none, and the source and the category of a group. -/
theorem Report.ofJson?_parse_format {r : Report} (fits : r.Fits) :
    ∃ text v, r.format .json = .ok text ∧ r.toJson? = some v ∧
      Json.parse text = some v ∧
      (Json.parse text).bind Report.ofJson? = some r ∧
      (∀ r' : Report, r'.Fits → r'.format .json = .ok text → r' = r) ∧
      (v.member? "failures" = none ↔ r.failures = []) ∧
      ∀ f ∈ r.files, ∀ g ∈ f.groups,
        (Json.object g.members).member? "source" = g.source.map .string ∧
        (Json.object g.members).member? "import_type" = g.category.map (.string ·.label) := by
  have readBack : ∀ {r : Report} {v : Json}, Holds ofJson? r v →
      (Json.parse v.pretty).bind Report.ofJson? = some r := by
    intro r v holds
    rw [Json.parse_pretty holds.whole, Option.bind_some, holds.read]
  obtain ⟨v, written, holds, failures⟩ := toJson?_of_fits fits
  refine ⟨v.pretty, v, by rw [format, written], written, Json.parse_pretty holds.whole,
    readBack holds, fun r' fits' same => ?_, failures, fun f _ g _ =>
    ⟨g.member?_source, g.member?_import_type⟩⟩
  obtain ⟨v', written', holds', -⟩ := toJson?_of_fits fits'
  have texts : v'.pretty = v.pretty := by
    rw [format, written'] at same
    exact Except.ok.inj same
  refine Option.some_inj.mp ?_
  calc some r'
    _ = (Json.parse v'.pretty).bind Report.ofJson? := (readBack holds').symm
    _ = (Json.parse v.pretty).bind Report.ofJson? := by rw [texts]
    _ = some r := readBack holds

/-- A quote, a backslash and a control character in the texts, and the greatest number. -/
theorem Report.ofJson?_parse_format_of_escapes :
    let r : Report :=
      { files := [⟨"\\\"", [⟨"from", some "\x01é", ["\n"], 18446744073709551615, some .known⟩], ""⟩],
        failures := [⟨"b", "\x7f"⟩], stats := {}, metadata := { timestamp := "𝄞" } }
    ∃ text, r.format .json = .ok text ∧ (Json.parse text).bind Report.ofJson? = some r := by
  intro r
  have fits : r.Fits := by
    refine ⟨?_, ?_, by simp [r, Stats.counts, UInt64.size], by decide⟩
    · simp only [r, List.forall_mem_singleton]
      exact ⟨⟨_, rfl⟩, by simp [UInt64.size]⟩
    · simp only [r, List.forall_mem_singleton]
      exact ⟨_, rfl⟩
  obtain ⟨text, v, formatted, -, -, read, -⟩ := ofJson?_parse_format fits
  exact ⟨text, formatted, read⟩

end ImportTidy
