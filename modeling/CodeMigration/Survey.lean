import CodeMigration.Reading

/-! # A survey of transformed files

Whether each source of a directory can be read as a module once it is transformed. -/

namespace CodeMigration.Survey

def verdict (code : String) : String :=
  match Source.Module.ofString code with
  | .ok _ => "OK"
  | .error fault =>
    "SYNTAX ERROR at line " ++ ((fault.line.map toString).getD "None") ++ ": " ++ fault.message

def fileLine (d : Disk) (dir : FilePath) (name : String) : Except Failure String := do
  let source ← d.readText (dir.child name)
  let t ← Legacy.transform source
  return name ++ ": " ++ verdict t.code ++ " (" ++ toString t.changes.length ++ " changes)"

def isSource (name : String) : Bool := ".py".toList.reverse.isPrefixOf name.toList.reverse

/-- One line for each source, up to the first failure. -/
def linesOf (d : Disk) (dir : FilePath) : List String → Partial String
  | [] => ⟨[], none⟩
  | name :: rest =>
    match fileLine d dir name with
    | .ok line => .cons line (linesOf d dir rest)
    | .error f => ⟨[], some f⟩

def survey (d : Disk) (dir : FilePath) : Partial String :=
  match d.find dir with
  | .ok (.dir entries) => linesOf d dir ((entries.map Prod.fst).filter isSource)
  | .ok (.file _) => ⟨[], some (.file .notDirectory dir.toString)⟩
  | .error fault => ⟨[], some (.file fault dir.toString)⟩

end CodeMigration.Survey
