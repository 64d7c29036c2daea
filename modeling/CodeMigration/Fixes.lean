import CodeMigration.Regex.Match
import CodeMigration.Transform

/-! # Fixes by regular expression

For a text in which something was found and nothing could be changed in its tree. -/

namespace CodeMigration

/-- Matches of a pattern give way to pieces. -/
structure Fix where
  pattern : String
  pieces : List Regex.Piece

namespace Fix

def apply (f : Fix) (source : String) : String :=
  match Regex.compile f.pattern with
  | .ok c => c.replace f.pieces source
  | .error _ => source

def applyAll (fixes : List Fix) (source : String) : String := fixes.foldl (fun text f => f.apply text) source

def renameCall (pattern new : String) : Fix := ⟨pattern ++ "\\s*\\(", [.text (new ++ "(")]⟩

def legacy : List Fix := [
  ⟨"(?m)\\bprint\\s+([\"\\'].*?[\"\\'])\\s*$", [.text "print(", .group 1, .text ")"]⟩,
  ⟨"(?m)\\bprint\\s+([^(\\n][^\\n]*?)$", [.text "print(", .group 1, .text ")"]⟩,
  renameCall "\\bxrange" "range",
  renameCall "\\braw_input" "input",
  renameCall "\\bunicode" "str",
  renameCall "\\blong" "int",
  renameCall "\\.iteritems" ".items",
  renameCall "\\.iterkeys" ".keys",
  renameCall "\\.itervalues" ".values",
  ⟨"except\\s+(\\w+)\\s*,\\s*(\\w+)\\s*:", [.text "except ", .group 1, .text " as ", .group 2, .text ":"]⟩,
  ⟨"\\bu([\"\\'])", [.group 1]⟩]

def route (method : String) (rest : String) : Fix :=
  ⟨"@(\\w+)\\.route\\s*\\(\\s*([\"\\'][^\"\\']+[\"\\'])\\s*" ++ rest ++ "\\)",
    [.text "@", .group 1, .text ("." ++ method ++ "("), .group 2, .text ")"]⟩

def methodsOnly (method : String) : String :=
  ",\\s*methods\\s*=\\s*\\[\\s*[\"\\']" ++ method ++ "[\"\\']\\s*\\]\\s*"

def flask : List Fix := [
  ⟨"from\\s+flask\\s+import\\s+Flask", [.text "from fastapi import FastAPI"]⟩,
  renameCall "\\bFlask" "FastAPI",
  route "get" (methodsOnly "GET"),
  route "post" (methodsOnly "POST"),
  route "get" "",
  ⟨"\\bjsonify\\s*\\(", []⟩,
  ⟨"(?m)return\\s+\\(([^)]+)\\)\\s*$", [.text "return ", .group 1]⟩]

def forName (name : String) : List Fix :=
  match MigrationKind.ofName? name with
  | some .legacy => legacy
  | some .flask => flask
  | none => []

end Fix

/-- What became of one text: how much was found and how much of it was fixed. -/
structure FixedText where
  found : Nat
  fixed : Nat
  code : String
  deriving DecidableEq

/-- Migrates a text by the name of a migration: by its tree, or else by regular expressions. What goes wrong leaves the
text as it is. -/
def fixText (name source : String) : FixedText :=
  let kind : MigrationKind := if name == MigrationKind.legacy.name then .legacy else .flask
  match analyze kind source with
  | .error _ => ⟨0, 0, source⟩
  | .ok found =>
    match transform kind source with
    | .error _ => ⟨found.length, 0, source⟩
    | .ok result =>
      if !result.changes.isEmpty then ⟨found.length, result.changes.length, result.code⟩
      else if !found.isEmpty then ⟨found.length, found.length, Fix.applyAll (Fix.forName name) source⟩
      else ⟨0, 0, source⟩

end CodeMigration
