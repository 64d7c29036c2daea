import CodeMigration.Agent.Planner
import CodeMigration.Agent.Tester
import CodeMigration.PullRequest
import CodeMigration.Repository

/-! # The workflow of a migration

A repository is cloned and planned. Then it is coded and tested, again and again while tests fail and
rounds are left. At last a pull request is made if the tests passed, and the migration ends. -/

namespace CodeMigration.Workflow

open Act

structure Crew where
  settings : Settings
  plannerAssisted : Bool
  coderAssisted : Bool
  testerAssisted : Bool
  deriving Inhabited

/-- Sets all agents up. They share no client of the hub with those before. -/
def Crew.setUp (s : Settings) : Act Crew := do
  modify fun w => { w with connected := false }
  let planner ← Agent.planner.setUp s
  let coder ← Agent.coder.setUp s
  let tester ← Agent.tester.setUp s
  return ⟨s, planner, coder, tester⟩

def Crew.client (c : Crew) : Docs.Client := .ofSettings c.settings

def Crew.access (c : Crew) : Repository.Access := .ofSettings c.settings

def Crew.testing (c : Crew) : Tester.Setup := ⟨c.testerAssisted, c.settings.docker, c.settings.dockerImage⟩

def removeQuietly (path : FilePath) : Act Unit := modify fun w =>
  match w.disk.removeDir path with
  | .ok disk => { w with disk }
  | .error _ => w

def removeByCommand (path : FilePath) : Act Unit := do
  let command := ["cmd", "/c", "rmdir", "/s", "/q", path.toString]
  let removes ← observe (.commanded command 30) fun o log => (o.commandFault log).isNone && o.commandRemoves log
  if removes then modify fun w =>
    match w.disk.removeFile path with
    | .ok disk => { w with disk }
    | .error _ => w

def clearWorkDir (path : FilePath) : Act Unit := do
  if (← get).disk.isThere path then
    removeQuietly path
    if (← get).disk.isThere path && (← read).platform == "Windows" then removeByCommand path

def skippedDirs : List String := [".git", ".venv", "venv", "__pycache__", "node_modules", ".tox", "build", "dist"]

def isSource (path : List String) : Bool := RemoteUrl.endsWith (path.getLast?.getD "").toList ".py".toList

def discover (d : Disk) (dir : FilePath) : List FilePath :=
  let found := match d.find dir with
    | .ok t => (FileTree.sortPaths t.contents).map Prod.fst
    | .error _ => []
  let paths := (found.filter isSource).map fun rest => (⟨dir.root, dir.parts ++ rest⟩ : FilePath)
  paths.filter fun p => !p.parts.any skippedDirs.contains

def cloneSources (c : Crew) : Act Unit := do
  clearWorkDir (.ofString c.settings.workDir)
  let path ← Repository.clone c.access (← get).state.repoUrl c.settings.workDir
  updateMigration fun m => { m with repoPath := some path, branch := c.settings.branch }
  Repository.switchTo path c.settings.branch
  failWith (← consult Outside.searchFault)
  let files := discover (← get).disk path
  updateMigration fun m => { m with files }
  say "system" ("Found " ++ toString files.length ++ " Python files to analyze.")

def clone (c : Crew) : Act Unit := do
  say "system" ("Cloning repository: " ++ (← get).state.repoUrl)
  match ← attempt (cloneSources c) with
  | .ok () => return
  | .error f =>
    addError ("Failed to clone repository: " ++ f.message)
    updateMigration fun m => { m with status := .failed }

def unlessFailed (act : Act Unit) : Act Unit := do
  if (← get).state.status != .failed then act

def plan (c : Crew) : Act Unit := unlessFailed (Planner.run c.plannerAssisted)

def code (c : Crew) : Act Unit := unlessFailed (Coder.run c.coderAssisted c.client)

def test (c : Crew) : Act Unit := unlessFailed do
  updateMigration fun m => { m with iteration := m.iteration + 1 }
  Tester.run c.testing

inductive Route where
  | retry | createPull | fail
  deriving DecidableEq

def Route.name : Route → String
  | retry => "retry"
  | createPull => "create_pr"
  | fail => "fail"

def route : Act Route := do
  let m := (← get).state
  if m.status == .failed then return .fail
  else if m.testsPassed then return .createPull
  else if m.iteration < m.maxIterations then
    say "system" ("Tests failed, attempting retry " ++ toString (m.iteration + 1) ++ "/" ++ toString m.maxIterations)
    return .retry
  else return .fail

def createPull (c : Crew) : Act Unit := do
  if !c.settings.autoPullRequest then say "system" "Auto PR creation disabled, skipping."
  else
    updateMigration fun m => { m with status := .review }
    say "system" "Creating pull request..."
    let m := (← get).state
    let draft : Repository.PullDraft :=
      { branch := m.branch, title := "[DevAssist] " ++ m.kind.name ++ " Migration", body := PullRequest.report m }
    match ← attempt (Repository.createPull c.access (m.repoPath.getD (.ofString "")) draft) with
    | .ok url => say "system" ("Pull request created: " ++ url)
    | .error f => addError ("Failed to create PR: " ++ f.message)

def finalize : Act Unit := do
  if (← get).state.testsPassed then
    updateMigration fun m => { m with status := .completed }
    say "system" "Migration completed successfully!"
  else
    updateMigration fun m => { m with status := .failed }
    say "system" "Migration failed. Please review errors."

inductive Node where
  | clone | planner | coder | tester | createPull | finalize
  deriving DecidableEq

def Node.name : Node → String
  | clone => "clone"
  | planner => "planner"
  | coder => "coder"
  | tester => "tester"
  | createPull => "create_pr"
  | finalize => "finalize"

def Node.act (c : Crew) : Node → Act Unit
  | clone => Workflow.clone c
  | planner => plan c
  | coder => code c
  | tester => test c
  | createPull => Workflow.createPull c
  | finalize => Workflow.finalize

def Node.enter (c : Crew) (n : Node) : Act Unit := do
  failWith (← consult Outside.stepFault)
  record (.entered n.name)
  n.act c

def round (c : Crew) : Act Route := do
  Node.coder.enter c
  Node.tester.enter c
  route

/-- Codes and tests, and again at most so many times. -/
def rounds (c : Crew) : Nat → Act Route
  | 0 => round c
  | n + 1 => do
    match ← round c with
    | .retry => rounds c n
    | r => return r

def finish (c : Crew) : Route → Act Unit
  | .createPull => do
    Node.createPull.enter c
    Node.finalize.enter c
  | .fail => Node.finalize.enter c
  | .retry => return

/-- Runs all steps. Each test counts as an iteration, so there is no further round once they are used up. -/
def runGraph (c : Crew) : Act Unit := do
  Node.clone.enter c
  Node.planner.enter c
  let m := (← get).state
  finish c (← rounds c (m.maxIterations - m.iteration).toNat)

/-- A migration that was handed back as fields, some of which are missing. Those that are not asked for are lost. -/
def ofFields (missing : List String) (m : Migration) : Migration :=
  let field {α : Type} (name : String) (value default : α) : α := if missing.contains name then default else value
  { repoUrl := m.repoUrl, kind := m.kind
    repoPath := field "repo_path" m.repoPath none
    branch := field "branch_name" m.branch ""
    status := field "status" m.status .failed
    files := field "files_to_migrate" m.files []
    processed := field "files_processed" m.processed []
    findings := field "deprecated_patterns" m.findings []
    changes := field "code_changes" m.changes []
    applied := field "applied_changes" m.applied []
    tests := field "test_results" m.tests []
    testsPassed := field "tests_passed" m.testsPassed false
    agent := field "current_agent" m.agent ""
    iteration := field "iteration" m.iteration 0
    errors := field "errors" m.errors []
    messages := field "messages" m.messages [] }

def returned (e : Engine) (m : Migration) : Migration :=
  let m := match e.messages with
    | some values => { m with messages := values.map Message.value }
    | none => m
  match e.missing with
  | some missing => ofFields missing m
  | none => m

def handBack : Act Unit := do
  let engine := (← read).engine
  modify fun w => { w with registry := engine.meanwhile w.registry }
  failWith engine.fault
  updateMigration (returned engine)

def outcome (m : Migration) : Outcome :=
  { success := m.status == .completed, state := m,
    summary := "Migration " ++ (if m.testsPassed then "completed" else "failed") ++ " in 0.00s" }

def run (c : Crew) (repoUrl kindName : String) : Act Outcome := do
  let kind ← result (MigrationKind.ofName kindName)
  updateMigration fun _ => { repoUrl, kind }
  runGraph c
  handBack
  return outcome (← get).state

end CodeMigration.Workflow
