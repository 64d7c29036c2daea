import CodeMigration.Agent
import CodeMigration.Docs.Client
import CodeMigration.Patch
import CodeMigration.Reading

/-! # Coding -/

namespace CodeMigration.Coder

open Act
open Json (Value)

/-- What was fetched for the assistant to keep to. -/
structure Context where
  parts : List String := []
  style : Value := .string ""
  guide : Value := .object []

def Context.text (c : Context) : String := "\n\n".intercalate c.parts

def Context.add (c : Context) (part : String) : Context := { c with parts := c.parts ++ [part] }

def patternLimit : Nat := 10

def firstPatterns (patterns : Value) : Except Failure (List Value) :=
  match patterns with
  | .array items => .ok (items.take patternLimit)
  | .string s => .ok ((s.toList.take patternLimit).map fun c => .string (String.ofList [c]))
  | .object _ => .error .noPlaces
  | v => .error (.noItems v.typeName)

def patternText (p : Value) : Except Failure String :=
  match p with
  | .object members =>
    let field (key : String) : String := ((members.lookup key).getD (.string "")).show
    .ok ("- " ++ field "name" ++ ": " ++ field "description")
  | v => .error (.noMember v.typeName "get")

def addPatterns (c : Context) : List Value → Context × Option Failure
  | [] => (c, none)
  | p :: rest =>
    match patternText p with
    | .ok text => addPatterns (c.add text) rest
    | .error f => (c, some f)

def addGuide (c : Context) (guide : Value) : Context × Option Failure :=
  if !guide.isSomething then (c, none)
  else
    let c := { c with guide }
    match guide with
    | .object members =>
      let patterns := (members.lookup "patterns").getD (.array [])
      if !patterns.isSomething then (c, none)
      else
        let c := c.add "## Migration Patterns"
        match firstPatterns patterns with
        | .ok items => addPatterns c items
        | .error f => (c, some f)
    | v => (c, some (.noMember v.typeName "get"))

def addStyle (c : Context) (style : Value) : Context :=
  if style.isSomething then { c with style }.add ("## Company Style Guide\n" ++ style.show) else c

/-- What a migration leads from and to. -/
def endsOf : MigrationKind → String × String
  | .legacy => ("python2", "python3")
  | .flask => ("flask", "fastapi")

def fetchContext (client : Docs.Client) (kind : MigrationKind) : Act Context := do
  let c := addStyle {} (← client.style)
  let (source, target) := endsOf kind
  let (c, failure) := addGuide c (← client.guide (.string source) (.string target))
  if let some f := failure then print ("MCP context fetch failed (optional): " ++ f.message)
  return c

def explanation (f : Finding) (changes : List String) : String :=
  "AST-based migration fix for " ++ f.kind ++
    if changes.isEmpty then "" else " (changes: " ++ ", ".intercalate (changes.take 3) ++ ")"

def wholeFileFix (f : Finding) (content : String) (t : Transformed) : Change :=
  { id := "change_" ++ f.id, findingId := f.id, file := f.place.file, before := content, after := t.code,
    startLine := 1, endLine := (Text.lines content).length,
    explanation := "Full file migration (regex-based): " ++ ", ".intercalate (t.changes.take 5), confidence := 90 }

/-- The change of the lines of a finding to those of the same numbers in the transformed text. -/
def linesFix (f : Finding) (t : Transformed) : Change :=
  let lines := Text.lines t.code
  let first := max 0 (f.place.startLine - 1)
  let last := min (lines.length : Int) f.place.endLine
  { id := "change_" ++ f.id, findingId := f.id, file := f.place.file, before := f.code,
    after := Text.unlines (Text.between first last lines), startLine := f.place.startLine, endLine := f.place.endLine,
    explanation := explanation f t.changes, confidence := 95 }

def isWholeFile (f : Finding) : Bool := f.kind == "syntax_error" || f.kind == "file_error"

def treeFix (kind : MigrationKind) (f : Finding) (content : String) : Except Failure Change := do
  let t ← transform kind content
  return if isWholeFile f then wholeFileFix f content t else linesFix f t

def assistedFix (kind : MigrationKind) (styleGuide : String) (f : Finding) (content : String) : Act Change := do
  let answer ← ask (Assistant.fixPrompt kind styleGuide f content)
  return { id := "change_" ++ f.id, findingId := f.id, file := f.place.file, before := f.code,
           after := Assistant.unfence answer, startLine := f.place.startLine, endLine := f.place.endLine,
           explanation := "Migration fix for " ++ f.kind ++ ": " ++ f.description, confidence := 90 }

def fix (assisted : Bool) (kind : MigrationKind) (styleGuide : String) (f : Finding) (content : String) : Act Change :=
  if assisted then assistedFix kind styleGuide f content else result (treeFix kind f content)

def addFix (assisted : Bool) (kind : MigrationKind) (styleGuide : String) (texts : Texts) (done : List Change)
    (f : Finding) : Act (List Change) := do
  match texts.lookup f.place.file with
  | some content => return done ++ [← fix assisted kind styleGuide f content]
  | none => return done

def fixes (assisted : Bool) (kind : MigrationKind) (styleGuide : String) (texts : Texts) (fs : List Finding) :
    Act (List Change) :=
  fs.foldlM (addFix assisted kind styleGuide texts) []

/-- Loads the documentation, unless there is a style guide already. -/
def loadContext (client : Docs.Client) : Act Unit := do
  let m := (← get).state
  if m.styleGuide.isEmpty then
    if (← read).loopRuns then
      say "coder" "MCP context unavailable (optional): Cannot run the event loop while another loop is running"
    else
      let text := (← fetchContext client m.kind).text
      updateMigration fun m => { m with styleGuide := text }
      if !text.isEmpty then say "coder" "Loaded style guide context from MCP server"

def readTexts (files : List String) : Act Texts :=
  files.foldlM (fun texts file => do
    if texts.has file then return texts
    match (← get).disk.readText (.ofString file) with
    | .ok text => return texts ++ [(file, text)]
    | .error f =>
      addError ("Error reading " ++ file ++ ": " ++ f.message)
      return texts) []

def writeText (changes : List Change) (file text : String) : Act Unit := do
  match ← writeFile file (Text.encode text) with
  | none =>
    let done := changes.filter fun c => c.file == file && c.applied
    updateMigration fun m => { m with applied := m.applied ++ done }
  | some f => addError ("Error writing " ++ file ++ ": " ++ f.message)

def run (assisted : Bool) (client : Docs.Client) : Act Unit := do
  Agent.coder.start
  let found := (← get).state.findings
  if found.isEmpty then say "coder" "No patterns to fix."
  else
    loadContext client
    let texts ← readTexts (found.map (·.place.file))
    let m := (← get).state
    let changes ← fixes assisted m.kind m.styleGuide texts found
    let changes := markApplied changes texts
    updateMigration fun m => { m with changes }
    let updated := applyChanges changes texts
    for (file, text) in updated do writeText changes file text
    let applied := (← get).state.applied.length
    say "coder" ("Applied " ++ toString applied ++ " code changes across " ++ toString updated.length ++ " files.")

end CodeMigration.Coder
