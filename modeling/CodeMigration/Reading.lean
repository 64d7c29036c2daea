import CodeMigration.Rules
import CodeMigration.Transform

/-! # Text files and what is found in them -/

namespace CodeMigration

/-- The text of bytes, with line feeds as line ends. -/
def textOf (bytes : Text.Bytes) : Except Failure String :=
  match Text.decode bytes with
  | .ok s => .ok (String.ofList (Text.unifyLineEnds s.toList))
  | .error fault => .error (.undecodable fault)

def Disk.readText (d : Disk) (p : FilePath) : Except Failure String :=
  match d.readBytes p with
  | .ok bytes => textOf bytes
  | .error fault => .error (.file fault p.toString)

def unreadable (file : String) (f : Failure) : Finding :=
  { id := "file_error", kind := "file_error", description := "Error reading file: " ++ f.message,
    place := ⟨file, 1, 1, 0, 0⟩, code := "", severity := "error" }

def Finding.inFile (file : String) (f : Finding) : Finding := { f with place := { f.place with file } }

def analyzeFile (d : Disk) (kind : MigrationKind) (p : FilePath) : List Finding :=
  let found := do
    let source ← d.readText p
    analyze kind source
  match found with
  | .ok fs => fs.map (Finding.inFile p.toString)
  | .error f => [unreadable p.toString f]

def matchFile (d : Disk) (rules : List Rule) (p : FilePath) : List Finding :=
  match d.readText p with
  | .error f => [unreadable p.toString f]
  | .ok source =>
    let found := Rule.findAll p.toString (Text.lines source) rules
    found.items ++ (found.failure.map (unreadable p.toString)).toList

end CodeMigration
