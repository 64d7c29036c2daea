import CodeMigration.Archive
import CodeMigration.Assistant.Prompt
import CodeMigration.Docs.Library
import CodeMigration.Job
import CodeMigration.Migration
import CodeMigration.Settings

/-! # The outside

What a run asks of services, and what they do. -/

namespace CodeMigration

structure Table where
  title : String
  /-- Headings with their styles. -/
  columns : List (String × String)
  rows : List (List String)

inductive Event where
  | asked (prompt : Assistant.Prompt)
  | entered (node : String)
  | cloned (url : String) (path : FilePath)
  | opened (path : FilePath)
  | headCreated (name : String)
  | headChecked (name : String)
  | staged
  | diffed (file : Option String)
  | discarded
  | cleaned
  | configured (part key value : String)
  | committed (message : String)
  | pushed (branch : String)
  /-- A client was made, with a token and the address of the service unless it is anonymous. -/
  | connected (account : Option (String × String))
  | fetched (repo : String)
  | pullCreated (title body head base : String)
  /-- A test was run, within so many seconds and in a directory. -/
  | tested (command : List String) (timeout : Nat) (directory : Option String)
  | requested (method host target : String)
  /-- A text with marks was shown on the console. -/
  | printed (text : String)
  | tabled (table : Table)
  /-- A plain text was written to the console. -/
  | wrote (text : String)
  /-- A complaint was written. -/
  | complained (text : String)
  /-- A task was shown as under way, as done, and then no longer. -/
  | started (task : String)
  | finished
  | closed (task : String)
  | listened (host : String) (tcpPort : Json.Value)
  | served
  | stopped
  | hosted (title version host : String) (tcpPort : Nat)
  /-- A command of the system was run, within so many seconds. -/
  | commanded (command : List String) (timeout : Nat)

abbrev Log : Type := List Event

def Log.written (log : Log) : String := String.join (log.map fun
  | .wrote text => text
  | _ => "")

inductive Reply where
  | answer (text : String)
  | failure (text : String)
  /-- It removes a directory, then answers. -/
  | removal (dir : FilePath) (text : String)

inductive TestRun where
  | timedOut
  | failure (text : String)
  | done (code : Int) (stdout stderr : String)

inductive DocsReply where
  | unreachable
  | fixed (status : Int) (body : Text.Bytes)
  /-- The library of the run answers it. -/
  | library

/-- What the engine that runs the steps of a migration does behind the last of them, in this order. -/
structure Engine where
  /-- What others made of the registry of jobs while it ran. -/
  meanwhile : Registry → Registry := id
  fault : Option String := none
  messages : Option (List Json.Value) := none
  /-- The fields of the migration that are missing in what it hands back, if it hands back fields. -/
  missing : Option (List String) := none

/-- Why a file is not written, and what is left in it if it was opened before. -/
structure WriteFault where
  cause : Failure
  left : Option Text.Bytes := none

/-- The services outside. What they do depends on all that was done before, the request itself included. -/
structure Outside where
  /-- Why the assistant cannot be set up. -/
  assistantFault : Option String := none
  reply : Log → Reply := fun _ => .answer "NO_ISSUES_FOUND"
  cloneFault : Log → Option String := fun _ => none
  /-- Why a call on a clone fails, the push apart. -/
  gitFault : Log → Option String := fun _ => none
  /-- Why a clone cannot be searched for sources. -/
  searchFault : Log → Option String := fun _ => none
  clonedFiles : Log → List (FilePath × Text.Bytes) := fun _ => []
  heads : Log → List String := fun _ => []
  isDirty : Log → Bool := fun _ => true
  untracked : Log → List String := fun _ => []
  sha : Log → String := fun _ => String.ofList (List.replicate 40 '0')
  remoteUrl : Log → String := fun _ => "https://github.com/o/r.git"
  pushFault : Log → Option String := fun _ => none
  diff : Log → String := fun _ => ""
  hubFault : Log → Option (Int × Json.Value) := fun _ => none
  repoInfo : Log → Json.Value := fun _ => .object []
  pullUrl : Log → String := fun _ => "https://github.com/o/r/pull/1"
  testRun : Log → TestRun := fun _ => .done 0 "" ""
  docs : Log → DocsReply := fun _ => .library
  listenFault : Log → Option String := fun _ => none
  commandFault : Log → Option String := fun _ => none
  commandRemoves : Log → Bool := fun _ => false
  platform : String := "Linux"
  /-- Whether a loop of events is already running, in which no other can run. -/
  loopRuns : Bool := false
  /-- Why no further step of a migration is run. A limit on their number is such a reason. -/
  stepFault : Log → Option String := fun _ => none
  engine : Engine := {}
  packing : Archive.Packing := {}
  /-- Why a file is not written where it could be. A text with characters that have no encoding is such a reason. -/
  writeFault : Disk → FilePath → Option WriteFault := fun _ _ => none

/-- The disk behind a try to write a file, and why it was not written. -/
def Disk.tryWrite (d : Disk) (file : String) (content : Text.Bytes) : Disk × Option Failure :=
  match d.write (.ofString file) content with
  | .ok d' => (d', none)
  | .error fault => (d, some (.file fault file))

/-- The same where the outside may be against it. -/
def Outside.write (o : Outside) (d : Disk) (file : String) (content : Text.Bytes) : Disk × Option Failure :=
  match o.writeFault d (.ofString file) with
  | none => d.tryWrite file content
  | some ⟨cause, none⟩ => (d, some cause)
  | some ⟨cause, some left⟩ => ((d.tryWrite file left).1, some cause)

/-- What a run can change. -/
structure World where
  disk : Disk := {}
  log : Log := []
  library : Docs.Library := {}
  state : Migration := { repoUrl := "" }
  /-- Whether a client of the hub was made. -/
  connected : Bool := false
  registry : Registry := {}
  deriving Inhabited

/-- Something done in the world, by the help of what is outside. -/
abbrev Act : Type → Type := ReaderT Outside (ExceptT Failure (StateM World))

namespace Act

variable {α : Type}

/-- Runs a task: its result, and the world behind it. -/
def runIn (t : Act α) (o : Outside) (w : World) : Except Failure α × World := t o w

/-- The result of a task even if it failed; what it did before stays done. -/
def attempt (t : Act α) : Act (Except Failure α) := fun o w =>
  let (r, w) := t.runIn o w
  (.ok r, w)

def result (r : Except Failure α) : Act α := fun _ w => (r, w)

def fail (f : Failure) : Act α := result (.error f)

def record (e : Event) : Act Unit := modify fun w => { w with log := w.log ++ [e] }

def consult (f : Outside → Log → α) : Act α := do
  let o ← read
  return f o (← get).log

/-- Records an event, and what the outside does about it. -/
def observe (e : Event) (f : Outside → Log → α) : Act α := do
  record e
  consult f

def print (line : String) : Act Unit := record (.wrote (line ++ "\n"))

def updateMigration (f : Migration → Migration) : Act Unit := modify fun w => { w with state := f w.state }

def say (role content : String) : Act Unit := updateMigration (·.addMessage role content)

def addError (text : String) : Act Unit := updateMigration (·.addError text)

def onDisk (path : String) (f : Disk → Except FileFault Disk) : Act Unit := do
  let w ← get
  match f w.disk with
  | .ok disk => set { w with disk }
  | .error fault => fail (.file fault path)

def writeFile (file : String) (content : Text.Bytes) : Act (Option Failure) := do
  let (disk, failure) := (← read).write (← get).disk file content
  modify fun w => { w with disk }
  return failure

def failWith (reason : Option String) : Act Unit :=
  match reason with
  | some text => fail (.reported text)
  | none => pure ()

def ask (prompt : Assistant.Prompt) : Act String := do
  match ← observe (.asked prompt) Outside.reply with
  | .answer text => return text
  | .failure text => fail (.reported text)
  | .removal dir text =>
    modify fun w => match w.disk.removeDir dir with
      | .ok disk => { w with disk }
      | .error _ => w
    return text

end Act

end CodeMigration
