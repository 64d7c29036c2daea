import CodeMigration.Source.Tree
import CodeMigration.Json.Writer

/-! # Findings and changes

What an analysis reports: a place in a file, why the code there has to change, and how. -/

namespace CodeMigration

inductive MigrationKind where
  | legacy | flask
  deriving DecidableEq, Inhabited

def MigrationKind.name : MigrationKind → String
  | .legacy => "py2to3"
  | .flask => "flask_to_fastapi"

def MigrationKind.ofName? : String → Option MigrationKind
  | "py2to3" => some .legacy
  | "flask_to_fastapi" => some .flask
  | _ => none

/-- A place in a file: lines from one, both included. -/
structure Location where
  file : String
  startLine : Int
  endLine : Int
  startCol : Nat := 0
  endCol : Nat := 0
  deriving DecidableEq, Inhabited

def Location.toString (l : Location) : String :=
  l.file ++ ":" ++ ToString.toString l.startLine ++ "-" ++ ToString.toString l.endLine

/-- The place of a node. The file is not known to the tree. -/
def Location.ofSpan (s : Source.Span) : Location := ⟨".", s.line, s.endLine, s.col, s.endCol⟩

structure Finding where
  id : String
  kind : String
  description : String
  place : Location
  code : String
  severity : String := "warning"
  fix : String := ""
  metadata : Json.Value := .object []
  deriving Inhabited

/-- Lines of a file that give way to new code. -/
structure Change where
  id : String
  findingId : String
  file : String
  before : String
  after : String
  startLine : Int
  endLine : Int
  explanation : String
  /-- In hundredths. -/
  confidence : Nat := 100
  applied : Bool := false
  deriving DecidableEq, Inhabited

end CodeMigration
