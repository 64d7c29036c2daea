import CodeMigration.FilePath
import CodeMigration.Text.Quoted

/-! # Jobs -/

namespace CodeMigration

/-- A migration that runs in the background, as its owner sees it. -/
structure Job where
  status : String
  kind : String
  completed : Bool := false
  error : Option String := none
  fileCount : Nat := 0
  found : Nat := 0
  fixed : Nat := 0
  testsPassed : Option Bool := none
  pullRequest : Option String := none
  agent : Option String := none
  messages : List String := []
  deriving DecidableEq, Inhabited

/-- All jobs that were made, which of them can be asked for, and the archives that some left. -/
structure Registry where
  jobs : List (String × Job) := []
  listed : List String := []
  results : List (String × FilePath) := []
  deriving Inhabited

namespace Registry

def identifier (n : Nat) : String := Text.ofPoints (Text.hexDigits 8 n) ++ "-0000-4000-8000-000000000000"

def nextId (r : Registry) : String := identifier r.jobs.length

def add (r : Registry) (job : Job) : Registry :=
  { r with jobs := r.jobs ++ [(r.nextId, job)], listed := r.listed ++ [r.nextId] }

def has (r : Registry) (id : String) : Bool := r.listed.contains id

def job (r : Registry) (id : String) : Job := (r.jobs.lookup id).getD default

def update (r : Registry) (id : String) (f : Job → Job) : Registry :=
  { r with jobs := r.jobs.map fun (other, j) => if other == id then (other, f j) else (other, j) }

def unlist (r : Registry) (id : String) : Registry := { r with listed := r.listed.filter (· != id) }

def dropResult (r : Registry) (id : String) : Registry :=
  { r with results := r.results.filter fun (other, _) => other != id }

def setResult (r : Registry) (id : String) (path : FilePath) : Registry :=
  { r with results := (r.dropResult id).results ++ [(id, path)] }

end Registry

end CodeMigration
