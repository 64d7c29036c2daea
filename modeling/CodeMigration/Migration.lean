import CodeMigration.Finding
import CodeMigration.Failure

/-! # Migrations under way -/

namespace CodeMigration

inductive Status where
  | pending | analyzing | planning | coding | testing | review | completed | failed
  deriving DecidableEq

def Status.name : Status → String
  | pending => "pending"
  | analyzing => "analyzing"
  | planning => "planning"
  | coding => "coding"
  | testing => "testing"
  | review => "review"
  | completed => "completed"
  | failed => "failed"

def Status.all : List Status := [pending, analyzing, planning, coding, testing, review, completed, failed]

def Status.ofName (name : String) : Except Failure Status :=
  match Status.all.find? fun s => s.name == name with
  | some s => .ok s
  | none => .error (.unknownStatus name)

def MigrationKind.ofName (name : String) : Except Failure MigrationKind :=
  match MigrationKind.ofName? name with
  | some kind => .ok kind
  | none => .error (.unknownKind name)

structure TestReport where
  name : String
  passed : Bool
  /-- In seconds. -/
  time : Nat := 0
  error : String := ""
  stdout : String := ""
  stderr : String := ""

/-- A line of the history: what someone said, or any value that a run engine puts in its place. -/
inductive Message where
  | said (role content : String)
  | value (v : Json.Value)

structure Migration where
  repoUrl : String
  repoPath : Option FilePath := none
  branch : String := ""
  kind : MigrationKind := .legacy
  status : Status := .pending
  files : List FilePath := []
  processed : List FilePath := []
  findings : List Finding := []
  changes : List Change := []
  applied : List Change := []
  tests : List TestReport := []
  testsPassed : Bool := false
  agent : String := ""
  iteration : Int := 0
  maxIterations : Int := 3
  errors : List String := []
  messages : List Message := []
  styleGuide : String := ""
  deriving Inhabited

namespace Migration

def addMessage (m : Migration) (role content : String) : Migration :=
  { m with messages := m.messages ++ [.said role content] }

def addError (m : Migration) (text : String) : Migration := { m with errors := m.errors ++ [text] }

structure Summary where
  repoUrl : String
  status : Status
  kind : MigrationKind
  processed : Nat
  findings : Nat
  applied : Nat
  testsPassed : Bool
  errors : Nat

def summary (m : Migration) : Summary :=
  { repoUrl := m.repoUrl, status := m.status, kind := m.kind, processed := m.processed.length,
    findings := m.findings.length, applied := m.applied.length, testsPassed := m.testsPassed,
    errors := m.errors.length }

end Migration

structure Outcome where
  success : Bool
  state : Migration
  pullRequest : String := ""
  summary : String := ""
  /-- How long it took. -/
  seconds : Decimal.Binary64 := .finite 0 0

end CodeMigration
