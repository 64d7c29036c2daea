import CodeMigration.Migration
import CodeMigration.Tally

/-! # Texts of pull requests -/

namespace CodeMigration.PullRequest

def title (kind : MigrationKind) : String :=
  let name := match kind with
    | .legacy => "Python 2 to 3"
    | .flask => "Flask to FastAPI"
  "[DevAssist] " ++ name ++ " Migration"

def flagText (b : Bool) : String := if b then "True" else "False"

def header : String := "## 🔄 DevAssist Automated Migration

This pull request was automatically generated by DevAssist, a multi-agent code migration tool."

def footer : String := "---

### Next Steps

1. Review the changes above
2. Run your test suite locally
3. Check for any edge cases not covered by automated migration
4. Approve and merge when ready

---
*This PR was generated by [DevAssist](https://github.com/your-org/devassist) - Multi-Agent Code Migration Tool*"

def summary (m : Migration) : String :=
  let s := m.summary
  let mark := if m.testsPassed then "✅" else "⚠️"
  Text.unlines [
    "### Summary",
    "",
    "| Metric | Value |",
    "|--------|-------|",
    "| Migration Type | `" ++ m.kind.name ++ "` |",
    "| Files Processed | " ++ toString s.processed ++ " |",
    "| Patterns Found | " ++ toString s.findings ++ " |",
    "| Changes Applied | " ++ toString s.applied ++ " |",
    "| Tests Passed | " ++ mark ++ " " ++ flagText s.testsPassed ++ " |",
    "| Errors | " ++ toString s.errors ++ " |"]

def changeLines (c : Change) : List String :=
  ["**" ++ c.explanation ++ "**\n", "<details>", "<summary>View diff</summary>\n", "```diff"] ++
    (Text.lines c.before).map ("- " ++ ·) ++ (Text.lines c.after).map ("+ " ++ ·) ++ ["```", "</details>\n"]

def fileLines (file : String) (changes : List Change) : List String :=
  ["\n#### `" ++ file ++ "`\n"] ++ (changes.take 3).flatMap changeLines ++
    if 3 < changes.length then ["*... and " ++ toString (changes.length - 3) ++ " more changes*\n"] else []

def changes (m : Migration) : String :=
  if m.applied.isEmpty then ""
  else
    let byFile := groupBy Change.file m.applied
    Text.unlines (["### Changes Made\n"] ++ (byFile.take 5).flatMap (fun (file, cs) => fileLines file cs) ++
      if 5 < byFile.length then ["\n*... and changes in " ++ toString (byFile.length - 5) ++ " more files*"] else [])

def severityMark : String → String
  | "error" => "🔴"
  | "warning" => "🟡"
  | "info" => "🔵"
  | _ => "⚪"

def newKinds (seen : List String) : List Finding → List Finding
  | [] => []
  | f :: rest => if seen.contains f.kind then newKinds seen rest else f :: newKinds (f.kind :: seen) rest

/-- Each kind of finding with its number and the severity of the first. -/
def kindRows (findings : List Finding) : List (String × Nat × String) :=
  let counts := tally (findings.map Finding.kind)
  (newKinds [] findings).map fun f => (f.kind, (counts.lookup f.kind).getD 0, f.severity)

def findings (m : Migration) : String :=
  if m.findings.isEmpty then ""
  else Text.unlines (
    ["### Patterns Identified\n", "| Pattern Type | Count | Severity |", "|-------------|-------|----------|"] ++
    (kindRows m.findings).map fun (kind, count, severity) =>
      "| `" ++ kind ++ "` | " ++ toString count ++ " | " ++ severityMark severity ++ " " ++ severity ++ " |")

def tests (m : Migration) : String :=
  if m.tests.isEmpty then "### Test Results\n\nNo automated tests were run."
  else
    let passed := m.tests.countP TestReport.passed
    let failed := m.tests.filter fun t => !t.passed
    Text.unlines (
      ["### Test Results\n", "**" ++ toString passed ++ "/" ++ toString m.tests.length ++ " tests passed**\n"] ++
      if failed.isEmpty then []
      else "#### Failed Tests\n" ::
        failed.map fun t => "- `" ++ t.name ++ "`: " ++ String.ofList (t.error.toList.take 100) ++ "...")

def body (m : Migration) : String :=
  "\n\n".intercalate ([header, summary m, changes m, findings m, tests m, footer].filter (!·.isEmpty))

def commitMessage (m : Migration) : String := title m.kind

def commitDetails (m : Migration) : String :=
  let s := m.summary
  Text.unlines [
    title m.kind,
    "",
    "Migration Summary:",
    "- Files processed: " ++ toString s.processed,
    "- Patterns found: " ++ toString s.findings,
    "- Changes applied: " ++ toString s.applied,
    "- Tests passed: " ++ flagText s.testsPassed,
    "",
    "Generated by DevAssist"]

def report (m : Migration) : String :=
  let s := m.summary
  Text.unlines [
    "## 🔄 DevAssist Migration Report",
    "",
    "### Migration Type",
    m.kind.name,
    "",
    "### Summary",
    "- **Files Processed:** " ++ toString s.processed,
    "- **Patterns Found:** " ++ toString s.findings,
    "- **Changes Applied:** " ++ toString s.applied,
    "- **Tests Passed:** " ++ (if s.testsPassed then "✅ Yes" else "❌ No"),
    "",
    "### Changes Made",
    ""] ++
  String.join ((m.applied.take 10).map fun c => "\n- `" ++ c.file ++ "`: " ++ c.explanation) ++
  (if 10 < m.applied.length then "\n- ... and " ++ toString (m.applied.length - 10) ++ " more changes" else "") ++
  Text.unlines [
    "",
    "",
    "### Testing",
    "This migration was validated with automated tests.",
    "",
    "---",
    "*Generated by [DevAssist](https://github.com/your-org/devassist) - Multi-Agent Code Migration Tool*",
    ""]

end CodeMigration.PullRequest
