import CodeMigration.Outside
import CodeMigration.RemoteUrl

/-! # Repositories

What is done with clones of repositories and at the hub that they come from. -/

namespace CodeMigration.Repository

open Act

structure Access where
  token : String
  hubUrl : String

def Access.ofSettings (s : Settings) : Access := ⟨s.githubToken, s.githubUrl⟩

def clonePath (url workDir : String) : FilePath := (FilePath.ofString workDir).child (RemoteUrl.repoName url)

/-- Removes a directory with all that is in it. Its path is lost with it where it leads back from a directory inside,
and the directory that all paths start from stays; that is only noticed when all in it is gone. -/
def removeAll (path : FilePath) : Act Unit := do
  onDisk path.toString (·.removeDir path)
  if path.name == ".." then fail (.file .missing path.toString)
  else if path.parts.isEmpty then fail (.file .notRemovable path.toString)

/-- Removes what is at a path, which has to be a directory. -/
def vacate (path : FilePath) : Act Unit := do
  match (← get).disk.find path with
  | .ok (.dir _) => removeAll path
  | .ok (.file _) => fail (.noDirectory path.toString)
  | .error .nameTooLong => fail (.file .nameTooLong path.toString)
  | .error _ => return

def clone (a : Access) (url workDir : String) : Act FilePath := do
  let path := clonePath url workDir
  vacate path
  let event := Event.cloned (RemoteUrl.withToken a.token url) path
  failWith (← observe event Outside.cloneFault)
  let files ← consult Outside.clonedFiles
  onDisk path.toString (·.makeDirs path)
  for (file, content) in files do
    onDisk (path.join file).toString (·.place (path.join file) content)
  return path

/-- Does something with a clone, and what is seen then; it can fail. -/
def onClone {α : Type} (e : Event) (f : Outside → Log → α) : Act α := do
  let (fault, seen) ← observe e fun o log => (o.gitFault log, f o log)
  failWith fault
  return seen

def doOnClone (e : Event) : Act Unit := onClone e fun _ _ => ()

def switchTo (path : FilePath) (branch : String) : Act Unit := do
  let heads ← onClone (.opened path) Outside.heads
  if !heads.contains branch then doOnClone (.headCreated branch)
  doOnClone (.headChecked branch)

def authorName : String := "DevAssist"

def authorEmail : String := "devassist@example.com"

def commitStaged (message : String) : Act String := do
  doOnClone (.configured "user" "name" authorName)
  doOnClone (.configured "user" "email" authorEmail)
  onClone (.committed message) Outside.sha

def commit (path : FilePath) (message : String) : Act String := do
  doOnClone (.opened path)
  let (isDirty, untracked) ← onClone .staged fun o log => (o.isDirty log, o.untracked log)
  if !isDirty && untracked.isEmpty then return "" else commitStaged message

def push (path : FilePath) (branch : String) : Act Unit := do
  doOnClone (.opened path)
  failWith (← observe (.pushed branch) Outside.pushFault)

def atHub (e : Event) (complaint : String) : Act Unit := do
  match ← observe e Outside.hubFault with
  | some (status, data) => fail (.reported (complaint ++ toString status ++ " " ++ data.write))
  | none => return

/-- Finds a repository at the hub, through a client that is made at the first use. -/
def fetch (a : Access) (name complaint : String) : Act Unit := do
  if !(← get).connected then
    record (.connected (if a.token.isEmpty then none else some (a.token, a.hubUrl)))
    modify fun w => { w with connected := true }
  atHub (.fetched name) complaint

structure PullDraft where
  branch : String
  title : String
  body : String
  base : String := "main"

/-- The owner and the name of the repository that a clone was made of. -/
def origin (path : FilePath) : Act (String × String) := do
  result (RemoteUrl.owner (← onClone (.opened path) Outside.remoteUrl))

/-- Asks a repository to merge what was pushed: the address of the request. -/
def askToMerge (a : Access) (repo : String) (draft : PullDraft) : Act String := do
  let complaint := "Failed to create pull request: "
  fetch a repo complaint
  atHub (.pullCreated draft.title draft.body draft.branch draft.base) complaint
  consult Outside.pullUrl

def createPull (a : Access) (path : FilePath) (draft : PullDraft) : Act String := do
  let (owner, name) ← origin path
  let _ ← commit path ("[DevAssist] Migration changes\n\n" ++ draft.title)
  push path draft.branch
  askToMerge a (owner ++ "/" ++ name) draft

def files (path : FilePath) (endings : List String) : Act (List FilePath) := do
  doOnClone (.opened path)
  let found := match (← get).disk.find path with
    | .ok t => FileTree.sortPaths t.files
    | .error _ => []
  let paths := found.map fun (rest, _) => (⟨path.root, path.parts ++ rest⟩ : FilePath)
  return paths.filter fun p => endings.any fun e => RemoteUrl.endsWith p.toString.toList e.toList

def below (dir file : FilePath) : Except Failure FilePath :=
  if file.root == dir.root && dir.parts.isPrefixOf file.parts then .ok ⟨"", file.parts.drop dir.parts.length⟩
  else .error (.notBelow file.toString dir.toString)

def diffOf (path file : FilePath) : Act String := do
  doOnClone (.opened path)
  let inner ← result (below path file)
  onClone (.diffed (some inner.toString)) Outside.diff

def diff (path : FilePath) : Act String := do
  doOnClone (.opened path)
  onClone (.diffed none) Outside.diff

def reset (path : FilePath) : Act Unit := do
  doOnClone (.opened path)
  doOnClone .discarded
  doOnClone .cleaned

def infoFields : List (String × String) := [
  ("name", "name"), ("full_name", "full_name"), ("description", "description"), ("default_branch", "default_branch"),
  ("language", "language"), ("stars", "stargazers_count"), ("forks", "forks_count"),
  ("open_issues", "open_issues_count")]

def info (a : Access) (owner name : String) : Act Json.Value := do
  fetch a (owner ++ "/" ++ name) "Failed to get repository info: "
  let known ← consult Outside.repoInfo
  return .object (infoFields.map fun (key, field) => (key, (known.member? field).getD .null))

end CodeMigration.Repository
