import CodeMigration.Flask.Edit
import CodeMigration.Legacy.Edit
import CodeMigration.Legacy.Lines
import CodeMigration.Legacy.Scan
import CodeMigration.Source.Printer.Statement
import CodeMigration.Source.Reader

/-! # Analysing and transforming a source text -/

namespace CodeMigration

open Source

structure Transformed where
  code : String
  changes : List String
  deriving DecidableEq, Inhabited

def printed (m : Module) : Except Failure String :=
  match m.print with
  | .ok text => .ok text
  | .error fault => .error (.print fault)

/-- Brings a text up to date: by its tree if it has one, else line by line. -/
def Legacy.transform (source : String) : Except Failure Transformed :=
  match Module.ofString source with
  | .ok m => do
    let code ← printed (Legacy.edit m)
    pure ⟨code, (Legacy.changes m).map Legacy.Change.text⟩
  | .error _ =>
    let (code, changes) := Legacy.mendText source
    .ok ⟨code, changes.map Legacy.LineChange.text⟩

/-- Moves a text to the new web framework; what is no module stays as it is. -/
def Flask.transform (source : String) : Except Failure Transformed :=
  match Module.ofString source with
  | .ok m => do
    let changes ← Flask.changes m
    let code ← printed (Flask.edit m)
    pure ⟨code, changes.map Flask.Change.text⟩
  | .error _ => .ok ⟨source, []⟩

def transform : MigrationKind → String → Except Failure Transformed
  | .legacy => Legacy.transform
  | .flask => Flask.transform

/-- A transformer takes one text after another. It notes what it changes in a list, and its answer is that very list and
no copy, so lists go by number: the lists made so far, the number of the one that changes are noted in, and the name of
the last application. -/
structure Transformer where
  kind : MigrationKind
  lists : List (List String) := [[]]
  noted : Nat := 0
  app : String := "app"

namespace Transformer

/-- A text and the number of the list of its changes. -/
structure Result where
  code : String
  changes : Nat

def note (t : Transformer) (text : String) : Transformer :=
  { t with lists := t.lists.modify t.noted (· ++ [text]) }

/-- Takes in the events of a pass up to a fault. -/
def follow (t : Transformer) : List Flask.Event → Transformer × Option Failure
  | [] => (t, none)
  | .change c :: rest => (t.note c.text).follow rest
  | .app name :: rest => { t with app := name }.follow rest
  | .fault f :: _ => (t, some f)

/-- Edits a tree and notes the changes. A failure leaves those before it in the list. -/
def visit (t : Transformer) (m : Module) : Transformer × Except Failure Module :=
  match t.kind with
  | .legacy => ((Legacy.changes m).foldl (fun t c => t.note c.text) t, .ok (Legacy.edit m))
  | .flask =>
    let (t, fault) := t.follow (Flask.events m)
    (t, fault.elim (.ok (Flask.edit m)) .error)

def fallback (kind : MigrationKind) (source : String) : Transformed :=
  match kind with
  | .legacy =>
    let (code, changes) := Legacy.mendText source
    ⟨code, changes.map Legacy.LineChange.text⟩
  | .flask => ⟨source, []⟩

/-- Transforms a text with a new list. For a text that is no module the answer has one more. -/
def call (t : Transformer) (source : String) : Transformer × Except Failure Result :=
  let t := { t with lists := t.lists ++ [[]], noted := t.lists.length }
  match Module.ofString source with
  | .ok m =>
    let (t, edited) := t.visit m
    (t, do return ⟨← printed (← edited), t.noted⟩)
  | .error _ =>
    let answer := fallback t.kind source
    ({ t with lists := t.lists ++ [answer.changes] }, .ok ⟨answer.code, t.lists.length⟩)

/-- What a result says, as the lists are now. -/
def read (t : Transformer) (r : Result) : Transformed := ⟨r.code, t.lists.getD r.changes []⟩

end Transformer

def faultFinding (source : String) (fault : Fault) : Except Failure Finding := do
  let line := fault.line.getD 1
  let code ← match fault.line with
    | none => pure ""
    | some n =>
      match (Text.lines source)[n - 1]? with
      | some line => pure line
      | none => .error .noSuchItem
  pure { id := "syntax_error", kind := "syntax_error",
         description := "Syntax error (may indicate Python 2 code): " ++ fault.message,
         place := ⟨".", line, line, 0, 0⟩, code, severity := "error" }

def scan : MigrationKind → String → Module → Except Failure (List Finding)
  | .legacy => Legacy.scan
  | .flask => Flask.scan

def analyze (kind : MigrationKind) (source : String) : Except Failure (List Finding) :=
  match Module.ofString source with
  | .ok m => scan kind source m
  | .error fault => do return [← faultFinding source fault]

end CodeMigration
