import ImportTidy.Report.Encoding
import ImportTidy.Yaml

/-!
# Formats of a report

A report is shown in one of four formats: the rendered import blocks, JSON, YAML, or
a summary of the counts.

The blocks of one file are shown as they are.  Those of several files, or of none,
each stand behind a line with the path, and blank lines separate them.

JSON and YAML have texts for paths, so a report with a path that is none has no such form.
-/

namespace ImportTidy

/-- How a report is shown. -/
inductive OutputFormat where
  /-- The rendered import blocks. -/
  | text
  /-- JSON over several lines. -/
  | json
  /-- YAML. -/
  | yaml
  /-- The counts in words. -/
  | summary
deriving DecidableEq, Repr

/-- The format of this name. -/
def OutputFormat.ofName? : String → Option OutputFormat
  | "text" => some .text
  | "json" => some .json
  | "yaml" => some .yaml
  | "summary" => some .summary
  | _ => none

/-- Why a report could not be shown. -/
inductive FormatFault where
  /-- A path is no text, so there is no JSON. -/
  | json
  /-- A path is no text, so there is no YAML. -/
  | yaml
deriving DecidableEq, Repr

/-- The text of a fault. -/
def FormatFault.message : FormatFault → String
  | .json => "JSON serialization error: path contains invalid UTF-8 characters"
  | .yaml => "YAML serialization error: path contains invalid UTF-8 characters"

/-- A file's block behind its path. -/
def FileReport.block (f : FileReport) : String := "# " ++ f.path.shown ++ "\n" ++ f.text

/-- The import blocks of a report. -/
def Report.blocks (r : Report) : String :=
  match r.files with
  | [f] => f.text
  | files => "\n".intercalate (files.map FileReport.block)

/-- The messages of the failures, under a heading. -/
def Report.failureLines (r : Report) : String :=
  if r.failures.isEmpty then ""
  else "Failures:\n" ++ String.join (r.failures.map fun f => "  " ++ f.message ++ "\n") ++ "\n"

/-- The counts of a report in words. -/
def Report.summary (r : Report) : String :=
  let s := r.stats
  "Import Sort Summary\n===================\n"
    ++ "Files Processed: " ++ toString s.files ++ "\n"
    ++ "Files Failed: " ++ toString s.failures ++ "\n\n"
    ++ "Groups: " ++ toString s.groups ++ " (from: " ++ toString s.sourceGroups
    ++ ", import: " ++ toString s.plainGroups ++ ")\n"
    ++ "Names: " ++ toString s.names ++ "\n\n"
    ++ "From Sources:\n"
    ++ "- Known: " ++ toString s.known ++ "\n"
    ++ "- Local: " ++ toString s.relative ++ "\n"
    ++ "- Stdlib: " ++ toString s.standard ++ "\n"
    ++ "- Unknown: " ++ toString s.unknown ++ "\n\n"
    ++ r.failureLines
    ++ "Scan Duration: " ++ toString r.metadata.duration ++ "ms\n"
    ++ "Timestamp: " ++ r.metadata.timestamp ++ "\n"
    ++ "Tool Version: " ++ r.metadata.toolVersion ++ "\n"

/-- A report in a format. -/
def Report.format (r : Report) : OutputFormat → Except FormatFault String
  | .text => .ok r.blocks
  | .json =>
      match r.toJson? with
      | none => .error .json
      | some v => .ok v.pretty
  | .yaml =>
      match r.members? with
      | none => .error .yaml
      | some members => .ok (Yaml.render members)
  | .summary => .ok r.summary

end ImportTidy
