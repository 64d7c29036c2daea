import CodeMigration.Agent
import CodeMigration.Assistant.Issue
import CodeMigration.Reading

/-! # Planning -/

namespace CodeMigration.Planner

open Act

def assistedFindings (kind : MigrationKind) (file content : String) : Act (Partial Finding) := do
  match ← attempt (ask (Assistant.issuesPrompt kind file content)) with
  | .ok answer => return Assistant.issues answer file content
  | .error f => return ⟨[], some f⟩

def treeFindings (kind : MigrationKind) (file content : String) : Partial Finding :=
  .ofExcept ((analyze kind content).map fun fs => fs.map (Finding.inFile file))

def findings (assisted : Bool) (kind : MigrationKind) (file content : String) : Act (Partial Finding) := do
  let found := treeFindings kind file content
  if assisted && found.failure.isNone then return found.append (← assistedFindings kind file content)
  else return found

/-- The findings in a file; a failure is noted, and what was found before it counts. -/
def planFile (assisted : Bool) (kind : MigrationKind) (file : FilePath) : Act (List Finding) := do
  let complain (f : Failure) : Act Unit := addError ("Error analyzing " ++ file.toString ++ ": " ++ f.message)
  match (← get).disk.readText file with
  | .error f =>
    complain f
    return []
  | .ok content =>
    let found ← findings assisted kind file.toString content
    if let some f := found.failure then complain f
    return found.items

def run (assisted : Bool) : Act Unit := do
  Agent.planner.start
  let m := (← get).state
  let found := (← m.files.mapM (planFile assisted m.kind)).flatten
  updateMigration fun m => { m with findings := found }
  say "planner" ("Analysis complete. Found " ++ toString found.length ++ " deprecated patterns.")

end CodeMigration.Planner
