import CodeMigration.Fixes
import CodeMigration.Workflow

/-! # The service

Snippets of code are migrated at once. Repositories and archives are migrated by jobs in the background,
whose owners ask for their status, fetch results and delete them. -/

namespace CodeMigration.Service

open Act

def checkKind (kind : String) : Except Failure Unit :=
  if (MigrationKind.ofName? kind).isSome then .ok ()
  else .error (.rejected 400 "Migration type must be 'py2to3' or 'flask_to_fastapi'")

def health : Json.Value := .object [("status", .string "healthy"), ("service", .string "devassist-api")]

def isBlank (s : String) : Bool := (Text.stripBoth s.toList).isEmpty

def snippet (code kind : String) : Except Failure FixedText := do
  if isBlank code then .error (.rejected 400 "Code cannot be empty")
  checkKind kind
  return fixText kind code

def updateRegistry (f : Registry → Registry) : Act Unit := modify fun w => { w with registry := f w.registry }

def updateJob (id : String) (f : Job → Job) : Act Unit := updateRegistry (·.update id f)

def create (job : Job) : Act String := do
  let id := (← get).registry.nextId
  updateRegistry (·.add job)
  return id

def notFound : Failure := .rejected 404 "Job not found"

def status (id : String) : Act Job := do
  let r := (← get).registry
  if r.has id then return r.job id else fail notFound

/-- A wish to have a repository migrated. A run goes by its own settings, whether pull requests are wished for or
not. -/
structure RepoRequest where
  url : String
  kind : String := "py2to3"
  pullRequest : Bool := true

def startRepo (r : RepoRequest) : Act String := do
  if isBlank r.url then fail (.rejected 400 "Repository URL cannot be empty")
  result (checkKind r.kind)
  create { status := "pending", kind := r.kind, messages := ["Migration job created"] }

def messageText : Message → String
  | .said role content => "[" ++ role ++ "] " ++ content
  | .value (.object members) =>
    let field (key default : String) : String := ((members.lookup key).getD (.string default)).show
    "[" ++ field "role" "system" ++ "] " ++ field "content" ""
  | .value v => v.show

/-- A job whose repository is about to be cloned. -/
def taken (r : RepoRequest) (j : Job) : Job :=
  { j with status := "cloning", messages := j.messages ++ ["Starting migration of " ++ r.url] }

def processing (j : Job) : Job := { j with status := "processing", agent := some "planner" }

def ended (o : Outcome) (j : Job) : Job :=
  let m := o.state
  let j := { j with fileCount := m.files.length, found := m.findings.length, fixed := m.applied.length,
                    testsPassed := some m.testsPassed, agent := some m.agent, completed := true }
  let messages := j.messages ++ m.messages.map messageText
  if o.success then
    { j with status := "completed", messages := messages ++ ["Migration completed successfully! " ++ o.summary] }
  else
    { j with status := "failed", error := some "Migration tests failed after maximum retries"
             messages := messages ++ "Migration failed - tests did not pass" :: m.errors.map ("Error detail: " ++ ·) }

def broken (f : Failure) (j : Job) : Job :=
  { j with status := "failed", error := some (f.kindName ++ ": " ++ f.message), completed := true
           messages := j.messages ++ ["Error: " ++ f.message] }

def runRepo (env : Environment) (id : String) (r : RepoRequest) : Act Outcome := do
  updateJob id (taken r)
  let crew ← Workflow.Crew.setUp (← result (Settings.ofEnvironment env))
  updateJob id processing
  Workflow.run crew r.url r.kind

def processRepo (env : Environment) (id : String) (r : RepoRequest) : Act Unit := do
  if (← get).registry.has id then
    match ← attempt (runRepo env id r) with
    | .ok o => updateJob id (ended o)
    | .error f => if (← get).registry.has id then updateJob id (broken f)

/-- An archive that was sent in: its job, where it is and where it is worked on. -/
structure Upload where
  id : String
  archive : FilePath
  workDir : FilePath
  kind : String

namespace Upload

def sourceDir (u : Upload) : FilePath := u.workDir.child "source"

def outputDir (u : Upload) : FilePath := u.workDir.child "output"

def migratedDir (u : Upload) : FilePath := u.outputDir.child "migrated"

def resultPath (u : Upload) : FilePath := u.workDir.child "result.zip"

end Upload

/-- Makes a job for an archive and keeps the archive in a directory of its own. -/
def startUpload (name : String) (content : Text.Bytes) (kind : String) : Act Upload := do
  if !RemoteUrl.endsWith name.toList ".zip".toList then fail (.rejected 400 "Please upload a ZIP file")
  result (checkKind kind)
  let id ← create { status := "pending", kind }
  let workDir := FilePath.ofString ("/tmp/" ++ id)
  let archive := workDir.child "upload.zip"
  onDisk archive.toString (·.place archive content)
  return { id, archive, workDir, kind }

def extract (dir : FilePath) : List ArchiveEntry → Act Unit
  | [] => return
  | e :: rest => do
    let path : FilePath := ⟨dir.root, dir.parts ++ e.parts⟩
    onDisk path.toString fun d => if e.isDir then d.makeDirs path else d.place path e.content
    extract dir rest

/-- The directory with the code: the only one in a directory, if it holds anything, or the directory itself. -/
def codeDir (d : Disk) (dir : FilePath) : FilePath :=
  match d.find dir with
  | .ok (.dir [(name, .dir (_ :: _))]) => ⟨dir.root, dir.parts ++ [name]⟩
  | _ => dir

def sourcesBelow (d : Disk) (dir : FilePath) : List (List String) :=
  match d.find dir with
  | .ok t => (FileTree.sortPaths t.contents).map Prod.fst |>.filter Workflow.isSource
  | .error _ => []

/-- What is known of an archive while its files are migrated. -/
structure Progress where
  code : FilePath
  found : Nat := 0
  fixed : Nat := 0

/-- Takes the archive out and copies its code to where it is migrated: the sources in it. -/
def unpack (u : Upload) : Act (List (List String) × Progress) := do
  onDisk u.sourceDir.toString (·.makeDirs u.sourceDir)
  match (← get).disk.readBytes u.archive with
  | .error fault => fail (.file fault u.archive.toString)
  | .ok bytes =>
    let read := Archive.ofBytes (← read).packing bytes
    extract u.sourceDir read.items
    if let some f := read.failure then fail f
    let disk := (← get).disk
    let code := codeDir disk u.sourceDir
    let sources := sourcesBelow disk code
    updateJob u.id fun j => { j with fileCount := sources.length }
    onDisk u.outputDir.toString (·.makeDirs u.outputDir)
    onDisk u.migratedDir.toString (·.makeDirs u.migratedDir)
    for (file, content) in disk.filesBelow code do
      let copy : FilePath := ⟨u.migratedDir.root, u.migratedDir.parts ++ file.parts.drop code.parts.length⟩
      onDisk copy.toString (·.place copy content)
    return (sources, { code })

def looseText (bytes : Text.Bytes) : String := String.ofList (Text.unifyLineEnds (Text.decodeOr [] 0 bytes))

/-- Migrates a source; one that cannot be read stays as it is. -/
def migrateSource (u : Upload) (p : Progress) (source : List String) : Act Progress := do
  match (← get).disk.readBytes ⟨p.code.root, p.code.parts ++ source⟩ with
  | .error _ => return p
  | .ok bytes =>
    let r := fixText u.kind (looseText bytes)
    if !r.code.isEmpty then
      let path : FilePath := ⟨u.migratedDir.root, u.migratedDir.parts ++ source⟩
      let _ ← attempt (onDisk path.toString (·.place path (Text.encode r.code)))
    return { p with found := p.found + r.found, fixed := p.fixed + r.fixed }

def packed (d : Disk) (dir : FilePath) : Archive :=
  match d.find dir with
  | .ok t => t.files.map fun (path, content) => ⟨"/".intercalate path, content⟩
  | .error _ => []

/-- Puts the migrated code into an archive and completes the job. -/
def pack (u : Upload) (p : Progress) : Act Unit := do
  updateJob u.id fun j => { j with found := p.found, fixed := p.fixed }
  let archive := packed (← get).disk u.migratedDir
  let packing := (← read).packing
  onDisk u.resultPath.toString (·.write u.resultPath (archive.toBytes packing))
  updateRegistry (·.setResult u.id u.resultPath)
  updateJob u.id fun j => { j with status := "completed", completed := true }

def workOn (u : Upload) : Act Unit := do
  let (sources, p) ← unpack u
  let p ← sources.foldlM (migrateSource u) p
  pack u p

/-- Does a job for an archive. If it fails nothing is left of the directory. -/
def processUpload (u : Upload) : Act Unit := do
  if !(← get).registry.has u.id then fail (.noJob u.id)
  updateJob u.id fun j => { j with status := "processing" }
  match ← attempt (workOn u) with
  | .ok () => return
  | .error f =>
    updateJob u.id fun j => { j with status := "failed", error := some f.message, completed := true }
    Workflow.removeQuietly u.workDir

structure Download where
  name : String
  content : Text.Bytes

def Download.disposition (d : Download) : String := "attachment; filename=" ++ d.name

def download (id : String) : Act Download := do
  let job ← status id
  if job.status != "completed" then
    fail (.rejected 400 ("Job is not completed. Current status: " ++ job.status))
  match (← get).registry.results.lookup id with
  | none => fail (.rejected 404 "Result file not found")
  | some path =>
    match (← get).disk.readBytes path with
    | .error _ => fail (.rejected 404 "Result file no longer exists")
    | .ok content => return ⟨"migrated-" ++ String.ofList (id.toList.take 8) ++ ".zip", content⟩

def delete (id : String) : Act Unit := do
  let r := (← get).registry
  if !r.has id then fail notFound
  updateRegistry (·.unlist id)
  if let some path := r.results.lookup id then
    Workflow.removeQuietly path.parent
    updateRegistry (·.dropResult id)

def host : Act Unit := record (.hosted "DevAssist API" "0.1.0" "0.0.0.0" 8000)

end CodeMigration.Service
