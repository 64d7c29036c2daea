import CodeMigration.Finding
import CodeMigration.Failure
import CodeMigration.Legacy.Use
import CodeMigration.Source.Outline
import CodeMigration.Source.Segment
import CodeMigration.Text.Case

/-! # Finding old uses in a tree -/

namespace CodeMigration.Legacy

open Source

/-- What a node may have to be reported for. A handler with a name is judged by its line. -/
inductive Site where
  | use (u : Use)
  | namedHandler
  deriving DecidableEq

def isInteger : Expr → Bool
  | .literal _ (.int _) | .literal _ (.bool _) => true
  | _ => false

def calleeUse? : Expr → Option Use
  | .name _ id => (OldFunction.ofName? id).map .function
  | .member _ _ attr => (OldMethod.ofName? attr).map .method
  | _ => none

def sitesOf : Label → List (Span × Site)
  | .expr (.call s func _ _) => ((calleeUse? func).map fun u => (s, .use u)).toList
  | .expr (.binary s .div left right) =>
    if isInteger left && isInteger right then [(s, .use .division)] else []
  | .stmt (.importModules s names) =>
    names.filterMap fun a => (reportedModule? a.name).map fun new => (s, .use (.importModule a.name new))
  | .stmt (.importFrom s (some name) _ _) =>
    ((reportedSource? name).map fun new => (s, .use (.importFrom name new))).toList
  | .handler s (some _) => [(s, .namedHandler)]
  | _ => []

def sites (m : Module) : List (Span × Site) := m.outline.preorder.flatMap fun o => sitesOf o.label

/-- Whether a line looks like a handler that names its exception behind a comma. -/
def looksOld (line : String) : Bool :=
  line.toList.contains ',' && !Text.contains (Text.lower line) " as "

def resolve (lines : List String) : Span × Site → Except Failure (Option (Span × Use))
  | (s, .use u) => .ok (some (s, u))
  | (s, .namedHandler) =>
    match lines[s.line - 1]? with
    | none => .error .noSuchItem
    | some line => .ok (if looksOld line then some (s, .exceptComma) else none)

def report (src : SourceText) (count : Nat) : List (Span × Site) → Except Failure (List Finding)
  | [] => .ok []
  | site :: rest => do
    match ← resolve src.plain site with
    | none => report src count rest
    | some (s, u) =>
      match src.segment? s with
      | none => .error .noSuchItem
      | some code =>
        let more ← report src (count + 1) rest
        pure ({ id := "ast_" ++ toString (count + 1), kind := u.kind, description := u.description,
                place := .ofSpan s, code, severity := u.severity, fix := u.fix } :: more)

def scan (source : String) (m : Module) : Except Failure (List Finding) :=
  report (.ofString source) 0 (sites m)

end CodeMigration.Legacy
