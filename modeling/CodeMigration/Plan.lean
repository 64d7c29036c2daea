import CodeMigration.Rules
import CodeMigration.Tally
import CodeMigration.Transform

/-! # Migrating one text

What a migration finds in a text, sorted into categories, and the text it makes of it. -/

namespace CodeMigration

/-- The result of a transformation, each change with a number. -/
structure Migrated where
  code : String
  changes : List Change

/-- Changes that say only what was done, not where. -/
def numberedChanges (kind : MigrationKind) (texts : List String) : List Change :=
  texts.mapIdx fun i text =>
    { id := kind.name ++ "_" ++ toString i, findingId := "transform_" ++ toString i, file := "", before := "",
      after := "", startLine := 0, endLine := 0, explanation := text }

def migrate (kind : MigrationKind) (source : String) : Except Failure Migrated := do
  let result ← transform kind source
  return ⟨result.code, numberedChanges kind result.changes⟩

/-- The findings with their number by category, and the text after the migration if that was asked for. -/
structure Plan where
  findings : List Finding
  categories : List (String × Nat)
  /-- The imports that the new code needs. -/
  imports : List String := []
  migrated : Option Migrated

def summaryLines (findings : List String) : List String :=
  (byCount (tally findings)).map fun (kind, count) => "  - " ++ kind ++ ": " ++ toString count ++ " occurrences"

end CodeMigration
