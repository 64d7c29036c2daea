import CodeMigration.Finding
import CodeMigration.Tally
import CodeMigration.Text.Basic

/-! # Applying changes -/

namespace CodeMigration

/-- Texts of files by name, in order. -/
abbrev Texts : Type := List (String × String)

namespace Texts

def has (ts : Texts) (file : String) : Bool := ts.any fun (name, _) => name == file

def set (ts : Texts) (file text : String) : Texts :=
  ts.map fun (name, old) => if name == file then (name, text) else (name, old)

end Texts

def Change.applyTo (c : Change) (lines : List String) : List String :=
  Text.upTo (c.startLine - 1) lines ++ Text.lines c.after ++ Text.fromOn c.endLine lines

/-- The last lines first, so that the numbers of the others stay right. -/
def lastFirst (changes : List Change) : List Change := changes.mergeSort fun a b => b.startLine ≤ a.startLine

def patch (changes : List Change) (text : String) : String :=
  Text.unlines ((lastFirst changes).foldl (fun lines c => c.applyTo lines) (Text.lines text))

def applyChanges (changes : List Change) (texts : Texts) : Texts :=
  (groupBy Change.file changes).foldl (fun ts (file, cs) =>
    match ts.lookup file with
    | some text => ts.set file (patch cs text)
    | none => ts) texts

/-- Changes after they were applied: those of files that are there are marked. -/
def markApplied (changes : List Change) (texts : Texts) : List Change :=
  changes.map fun c => if texts.has c.file then { c with applied := true } else c

end CodeMigration
