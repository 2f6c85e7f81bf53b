import ImportTidy.Json
import ImportTidy.Report

/-!
# Reports as values

`Report.toJson?` gives a report as a tree of named values, and `Report.ofJson?` reads
one back.  What is absent has no member: the source and the category of a group, and
the list of failures where it is empty.  A path has to be a text, so a report with a path
that is none cannot be given.

A reader is more lenient than the writer.

* Members that it does not know are passed over.
* The source and the category may be missing or null, and the failures may be
  missing.  All else has to be there.
* A value with named members may also be a list of their values in order.  Members at
  its end that may be missing may be missing there too.
* A number is an integer that a 64-bit word holds.
* A category is its name, or an object that has this name with null behind it.
-/

namespace ImportTidy

/-! ## Writing -/

/-- The members of a group. -/
def GroupReport.members (g : GroupReport) : List (String × Json) :=
  [("kind", .string g.kind)]
    ++ (g.source.toList.map fun s => ("source", .string s))
    ++ [("names", .array (g.names.map .string)), ("line", .natural g.line)]
    ++ (g.category.toList.map fun c => ("import_type", .string c.label))

/-- The members of a file with this path. -/
def FileReport.members (f : FileReport) (path : String) : List (String × Json) :=
  [("path", .string path), ("groups", .array (f.groups.map fun g => .object g.members)),
   ("text", .string f.text)]

/-- A file as a value, if its path is a text. -/
def FileReport.toJson? (f : FileReport) : Option Json :=
  f.path.text?.map fun path => .object (f.members path)

/-- The members of a failure with this path. -/
def FileFailure.members (f : FileFailure) (path : String) : List (String × Json) :=
  [("path", .string path), ("message", .string f.message)]

/-- A failure as a value, if its path is a text. -/
def FileFailure.toJson? (f : FileFailure) : Option Json :=
  f.path.text?.map fun path => .object (f.members path)

/-- The members of the counts. -/
def Stats.members (s : Stats) : List (String × Json) :=
  [("total_files", .natural s.files), ("failed_files", .natural s.failures),
   ("total_groups", .natural s.groups), ("from_groups", .natural s.sourceGroups),
   ("plain_groups", .natural s.plainGroups), ("total_names", .natural s.names),
   ("known_imports", .natural s.known), ("local_imports", .natural s.relative),
   ("stdlib_imports", .natural s.standard), ("unknown_imports", .natural s.unknown)]

/-- The members of the metadata. -/
def Metadata.members (m : Metadata) : List (String × Json) :=
  [("scan_duration_ms", .natural m.duration), ("timestamp", .string m.timestamp),
   ("tool_version", .string m.toolVersion)]

/-- The members of a report with these files and failures. -/
def Report.members (r : Report) (files failures : List Json) : List (String × Json) :=
  [("files", .array files)]
    ++ (if failures.isEmpty then [] else [("failures", .array failures)])
    ++ [("stats", .object r.stats.members), ("metadata", .object r.metadata.members)]

/-- The members of a report, if all its paths are texts. -/
def Report.members? (r : Report) : Option (List (String × Json)) := do
  let files ← r.files.mapM FileReport.toJson?
  let failures ← r.failures.mapM FileFailure.toJson?
  return r.members files failures

/-- A report as a value, if all its paths are texts. -/
def Report.toJson? (r : Report) : Option Json := r.members?.map .object

/-! ## Reading -/

/-- The values of a record's members, each absent or there.  A list gives as many as it
has, and has no more than there are members. -/
def Json.fields? (keys : List String) (v : Json) : Option (List (Option Json)) :=
  match v with
  | .object _ => some (keys.map v.member?)
  | .array items =>
      if items.length ≤ keys.length then
        some (items.map some ++ List.replicate (keys.length - items.length) none)
      else none
  | _ => none

/-- The text that a value is, or none for null. -/
def Json.textOrNull? : Json → Option (Option String)
  | .null => some none
  | v => v.text?.map some

/-- The category that a value is. -/
def Category.ofJson? : Json → Option Category
  | .string s => Category.ofLabel? s
  | .object [(key, .null)] => Category.ofLabel? key
  | _ => none

/-- The category that a value is, or none for null. -/
def Category.ofJsonOrNull? : Json → Option (Option Category)
  | .null => some none
  | v => (Category.ofJson? v).map some

/-- The group that a value is. -/
def GroupReport.ofJson? (v : Json) : Option GroupReport :=
  match v.fields? ["kind", "source", "names", "line", "import_type"] with
  | some [some kind, source, some names, some line, category] => do
      return {
        kind := ← kind.text?
        source := ← (source.getD .null).textOrNull?
        names := ← names.texts?
        line := ← line.word?
        category := ← Category.ofJsonOrNull? (category.getD .null) }
  | _ => none

/-- The file that a value is. -/
def FileReport.ofJson? (v : Json) : Option FileReport :=
  match v.fields? ["path", "groups", "text"] with
  | some [some path, some groups, some text] => do
      return {
        path := (← path.text? : String)
        groups := ← (← groups.items?).mapM GroupReport.ofJson?
        text := ← text.text? }
  | _ => none

/-- The failure that a value is. -/
def FileFailure.ofJson? (v : Json) : Option FileFailure :=
  match v.fields? ["path", "message"] with
  | some [some path, some message] => do
      return { path := (← path.text? : String), message := ← message.text? }
  | _ => none

/-- The counts that a value is. -/
def Stats.ofJson? (v : Json) : Option Stats :=
  match v.fields? ["total_files", "failed_files", "total_groups", "from_groups", "plain_groups",
      "total_names", "known_imports", "local_imports", "stdlib_imports", "unknown_imports"] with
  | some [some files, some failures, some groups, some sourceGroups, some plainGroups, some names,
      some known, some relative, some standard, some unknown] => do
      return {
        files := ← files.word?
        failures := ← failures.word?
        groups := ← groups.word?
        sourceGroups := ← sourceGroups.word?
        plainGroups := ← plainGroups.word?
        names := ← names.word?
        known := ← known.word?
        relative := ← relative.word?
        standard := ← standard.word?
        unknown := ← unknown.word? }
  | _ => none

/-- The metadata that a value is. -/
def Metadata.ofJson? (v : Json) : Option Metadata :=
  match v.fields? ["scan_duration_ms", "timestamp", "tool_version"] with
  | some [some duration, some timestamp, some version] => do
      return {
        duration := ← duration.word?
        timestamp := ← timestamp.text?
        toolVersion := ← version.text? }
  | _ => none

/-- The report that a value is. -/
def Report.ofJson? (v : Json) : Option Report :=
  match v.fields? ["files", "failures", "stats", "metadata"] with
  | some [some files, failures, some stats, some metadata] => do
      return {
        files := ← (← files.items?).mapM FileReport.ofJson?
        failures := ← (← (failures.getD (.array [])).items?).mapM FileFailure.ofJson?
        stats := ← Stats.ofJson? stats
        metadata := ← Metadata.ofJson? metadata }
  | _ => none

end ImportTidy
