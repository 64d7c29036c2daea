import CodeMigration.CommandLine.Help
import CodeMigration.Console.Table
import CodeMigration.Service

/-! # The program

Its commands, and what they do and show. -/

namespace CodeMigration.Program

open Act CommandLine

def version : String := "0.1.0"

def name : String := "devassist"

def versionOption : Opt := { long := "--version", help := "Show the version and exit." }

def root : Command :=
  { name, options := [versionOption]
    about := [(0, "DevAssist - Multi-Agent Code Migration Tool."),
      (0, "Automatically migrate legacy code across repositories using AI-powered multi-agent workflows.")] }

def typeOption (help : String) : Opt :=
  { long := "--type", short := some 't', takes := .oneOf ["py2to3", "flask_to_fastapi"], help }

def migrateCommand : Command :=
  { name := "migrate", operand := some "REPO_URL"
    options := [typeOption "Type of migration to perform",
      { long := "--branch", short := some 'b', takes := .text "TEXT", help := "Branch name for migration changes" },
      { long := "--no-pr", help := "Skip automatic pull request creation" },
      { long := "--dry-run", help := "Analyze without making changes" }]
    about := [(0, "Run migration on a repository."), (0, "REPO_URL: URL of the Git repository to migrate."),
      (0, "Examples:"),
      (4, "devassist migrate https://github.com/user/repo          devassist migrate " ++
        "https://github.com/user/repo --type flask_to_fastapi")] }

def analyzeCommand : Command :=
  { name := "analyze", operand := some "REPO_URL"
    options := [typeOption "Type of migration to analyze for",
      { long := "--output", short := some 'o', takes := .text "PATH", help := "Output file for analysis report" }]
    about := [(0, "Analyze a repository for migration patterns."),
      (0, "This command analyzes the repository without making any changes, providing a report of patterns found and " ++
        "recommended migrations.")] }

def configCommand : Command :=
  { name := "config", options := [], about := [(0, "Show current configuration.")] }

def initCommand : Command :=
  { name := "init", options := [], about := [(0, "Initialize DevAssist configuration in current directory.")] }

def commands : List Command := [analyzeCommand, configCommand, initCommand, migrateCommand]

inductive Request where
  | help (command : Option Command)
  | version
  | wrong (command : Option Command) (fault : UsageFault)
  | run (command : Command) (scan : Scan)

/-- The first option given that asks for something to be shown. -/
def asksFor? (command : Option Command) (s : Scan) : Option Request :=
  s.given.findSome? fun (o, _) =>
    if o.long == "--help" then some (.help command) else if o.long == "--version" then some .version else none

def commandRequest (c : Command) (args : List String) : Request :=
  match c.scan true args with
  | .error fault => .wrong (some c) fault
  | .ok s =>
    match asksFor? (some c) s with
    | some r => r
    | none =>
      match c.check s with
      | .ok () => .run c s
      | .error fault => .wrong (some c) fault

def looksLikeOption (name : String) : Bool :=
  match name.toList with
  | [] => false
  | c :: _ => !(Text.isWordChar c) || c == '_'

/-- What options in front of a command ask for, or else what is done with what follows them. -/
def rootRequest (args : List String) (next : List String → Request) : Request :=
  if args.isEmpty then .help none
  else match root.scan false args with
    | .error fault => .wrong none fault
    | .ok s => (asksFor? none s).getD (next s.operands)

def request (args : List String) : Request :=
  rootRequest args fun
    | [] => .wrong none .missingCommand
    | name :: rest =>
      match commands.find? fun c => c.name == name with
      | some c => commandRequest c rest
      | none =>
        let unknown := Request.wrong none (.noSuchCommand name)
        if looksLikeOption name then rootRequest rest fun _ => unknown else unknown

def printMarked (text : String) : Act Unit := record (.printed text)

def mark (b : Bool) : String := if b then "✓" else "✗"

def showErrors (errors : List String) : Act Unit := do
  if !errors.isEmpty then
    printMarked "\n[bold red]Errors:[/bold red]"
    for e in errors do printMarked ("  • " ++ e)

def showOutcome (o : Outcome) : Act Unit := do
  let colour := if o.success then "green" else "red"
  let line := if o.success then "✓ Migration completed" else "✗ Migration failed"
  printMarked ("\n[bold " ++ colour ++ "]" ++ line ++ "[/bold " ++ colour ++ "]")
  let s := o.state.summary
  record (.tabled
    { title := "Migration Summary", columns := [("Metric", "cyan"), ("Value", "white")]
      rows := [["Status", s.status.name], ["Files Processed", toString s.processed],
        ["Patterns Found", toString s.findings], ["Changes Applied", toString s.applied],
        ["Tests Passed", mark s.testsPassed], ["Duration", o.seconds.fixed 2 ++ "s"]] })
  showErrors o.state.errors
  if !o.pullRequest.isEmpty then printMarked ("\n[bold green]Pull Request:[/bold green] " ++ o.pullRequest)

def findingReport (f : Finding) : Json.Value :=
  .object [("type", .string f.kind), ("file", .string f.place.file), ("line", .int f.place.startLine),
    ("severity", .string f.severity), ("description", .string f.description)]

def report (m : Migration) : Json.Value :=
  .object [("repository", .string m.repoUrl), ("migration_type", .string m.kind.name),
    ("files_analyzed", .int m.files.length), ("patterns_found", .int m.findings.length),
    ("patterns_by_type", .object ((groupBy Finding.kind m.findings).map fun (kind, fs) => (kind, .int fs.length))),
    ("patterns", .array (m.findings.map findingReport))]

def kindTable (findings : List Finding) : Table :=
  let groups := (groupBy Finding.kind findings).mergeSort fun a b => b.2.length ≤ a.2.length
  { title := "Patterns by Type", columns := [("Pattern Type", "cyan"), ("Count", "white"), ("Severity", "yellow")]
    rows := groups.map fun (kind, fs) =>
      [kind, toString fs.length, (fs.head?.map Finding.severity).getD "unknown"] }

/-- Shows what an analysis found, and writes a report if there is a file for it. -/
def showAnalysis (m : Migration) (output : String) : Act Unit := do
  printMarked "\n[bold]Analysis Results[/bold]"
  printMarked ("Files analyzed: " ++ toString m.files.length)
  printMarked ("Patterns found: " ++ toString m.findings.length ++ "\n")
  if m.findings.isEmpty then printMarked "[green]No migration patterns found![/green]"
  else
    record (.tabled (kindTable m.findings))
    if !output.isEmpty then
      onDisk output (·.write (.ofString output) (Text.encode (report m).writeLines))
      printMarked ("\n[green]Report saved to " ++ output ++ "[/green]")

def close (task : String) : Except Failure Unit → Act Nat
  | .ok () => do
    record (.closed task)
    return 0
  | .error f => do
    record .finished
    printMarked ("\n[bold red]Error:[/bold red] " ++ f.message)
    record (.closed task)
    record (.complained "Aborted!\n")
    return 1

def underWay (task : String) (work : Act Unit) : Act Nat := do
  record (.started task)
  close task (← attempt work)

/-- A wish to have a repository migrated. The branch and the pull request go by the settings. -/
structure MigrateRequest where
  url : String
  kind : String
  branch : String
  noPullRequest : Bool
  dryRun : Bool

def MigrateRequest.ofScan (s : Scan) : MigrateRequest :=
  { url := s.operands.head?.getD "", kind := (s.value? "--type").getD "py2to3",
    branch := (s.value? "--branch").getD "devassist/migration", noPullRequest := s.has "--no-pr",
    dryRun := s.has "--dry-run" }

def announce (r : MigrateRequest) : Act Unit := do
  printMarked ("\n[bold blue]DevAssist[/bold blue] v" ++ version)
  printMarked ("Migration type: [cyan]" ++ r.kind ++ "[/cyan]")
  printMarked ("Repository: [cyan]" ++ r.url ++ "[/cyan]\n")
  if r.dryRun then printMarked "[yellow]Dry run mode - no changes will be made[/yellow]\n"

def runWorkflow (env : Environment) (url kind : String) : Act Unit := do
  let crew ← Workflow.Crew.setUp (← result (Settings.ofEnvironment env))
  let o ← Workflow.run crew url kind
  record .finished
  showOutcome o

def migrate (env : Environment) (r : MigrateRequest) : Act Nat := do
  announce r
  underWay "Running migration workflow..." (runWorkflow env r.url r.kind)

def analyze (env : Environment) (url kind output : String) : Act Nat := do
  printMarked "\n[bold blue]DevAssist Analysis[/bold blue]"
  printMarked ("Repository: [cyan]" ++ url ++ "[/cyan]")
  printMarked ("Migration type: [cyan]" ++ kind ++ "[/cyan]\n")
  underWay "Analyzing repository..." do
    let s ← result (Settings.ofEnvironment env)
    let path ← Repository.clone (.ofSettings s) url s.workDir
    let files ← Repository.files path [".py"]
    let kind ← result (MigrationKind.ofName kind)
    updateMigration fun _ => { repoUrl := url, repoPath := some path, kind, files }
    Planner.run (← Agent.planner.setUp s)
    record .finished
    showAnalysis (← get).state output

def secret (value : String) : String := if value.isEmpty then "[red]Not set[/red]" else "***"

def settingRows (s : Settings) : List (List String) := [
  ["OpenAI Model", s.model], ["OpenAI API Key", secret s.apiKey], ["GitHub Token", secret s.githubToken],
  ["Migration Type", s.kind.name], ["Target Branch", s.branch],
  ["Auto Create PR", PullRequest.flagText s.autoPullRequest], ["Docker Enabled", PullRequest.flagText s.docker],
  ["MCP Enabled", PullRequest.flagText s.docsEnabled], ["Work Directory", s.workDir], ["Log Level", s.logLevel]]

def config (env : Environment) : Act Nat := do
  let s ← result (Settings.ofEnvironment env)
  record (.tabled
    { title := "DevAssist Configuration", columns := [("Setting", "cyan"), ("Value", "green")]
      rows := settingRows s })
  return 0

def sampleSettings : String := "# DevAssist Configuration
# Copy this file to .env and fill in your values

# OpenAI Configuration
DEVASSIST_OPENAI_API_KEY=your-openai-api-key
DEVASSIST_OPENAI_MODEL=gpt-4-turbo-preview

# GitHub Configuration
DEVASSIST_GITHUB_TOKEN=your-github-token

# Migration Settings
DEVASSIST_MIGRATION_TYPE=py2to3
DEVASSIST_TARGET_BRANCH=devassist/migration
DEVASSIST_AUTO_CREATE_PR=true

# Docker Settings
DEVASSIST_DOCKER_ENABLED=true
DEVASSIST_DOCKER_IMAGE=python:3.11-slim

# MCP Settings (optional)
DEVASSIST_MCP_ENABLED=false
DEVASSIST_MCP_SERVER_URL=http://localhost:3000

# Logging
DEVASSIST_LOG_LEVEL=INFO
"

def sampleFile : String := ".env.example"

def init : Act Nat := do
  let path := FilePath.ofString sampleFile
  if (← get).disk.isThere path then printMarked ("[yellow]" ++ sampleFile ++ " already exists[/yellow]")
  else
    onDisk sampleFile (·.write path (Text.encode sampleSettings))
    printMarked ("[green]Created " ++ sampleFile ++ "[/green]")
    printMarked "Copy to .env and fill in your configuration values."
  return 0

def runCommand (env : Environment) (c : Command) (s : Scan) : Act Nat :=
  match c.name with
  | "migrate" => migrate env (.ofScan s)
  | "analyze" =>
    analyze env (s.operands.head?.getD "") ((s.value? "--type").getD "py2to3") ((s.value? "--output").getD "")
  | "config" => config env
  | _ => init

def pathOf : Option Command → String
  | none => name
  | some c => name ++ " " ++ c.name

/-- Runs the program with help in lines of a width: the status that it ends with. -/
def run (env : Environment) (width : Nat) (args : List String) : Act Nat := do
  match request args with
  | .help command =>
    print ((command.getD root).help width (pathOf command) (if command.isSome then [] else commands))
    return 0
  | .version =>
    print (name ++ ", version " ++ version)
    return 0
  | .wrong command fault =>
    record (.complained (complaint (pathOf command) (command.getD root) command.isNone fault ++ "\n"))
    return 2
  | .run c s =>
    match ← attempt (runCommand env c s) with
    | .ok status => return status
    | .error _ => return 1

end CodeMigration.Program
