import CodeMigration.Source.Edit

/-! # Replacing old uses in a tree -/

namespace CodeMigration.Legacy

open Source

inductive Change where
  | function (name successor : String)
  | method (name successor : String)
  | keyTest
  | importModule (name successor : String)
  | importFrom (name successor : String)
  deriving DecidableEq

def Change.text : Change → String
  | function name new => name ++ "() -> " ++ new ++ "()"
  | method name new => "." ++ name ++ "() -> ." ++ new ++ "()"
  | keyTest => ".has_key(k) -> k in dict"
  | importModule name new => "import " ++ name ++ " -> import " ++ new
  | importFrom name new => "from " ++ name ++ " -> from " ++ new

def newFunction? : String → Option String
  | "xrange" => some "range"
  | "raw_input" => some "input"
  | "unicode" => some "str"
  | "long" => some "int"
  | _ => none

def newMethod? : String → Option String
  | "iteritems" => some "items"
  | "iterkeys" => some "keys"
  | "itervalues" => some "values"
  | _ => none

def renamedModule? : String → Option String
  | "ConfigParser" => some "configparser"
  | "Queue" => some "queue"
  | "SocketServer" => some "socketserver"
  | "repr" => some "reprlib"
  | "Tkinter" => some "tkinter"
  | _ => none

def renamedSource? : String → Option String
  | "ConfigParser" => some "configparser"
  | "Queue" => some "queue"
  | "SocketServer" => some "socketserver"
  | "urllib2" => some "urllib.request"
  | "urlparse" => some "urllib.parse"
  | "StringIO" => some "io"
  | "cStringIO" => some "io"
  | _ => none

/-- An old function or method called gives way to the new one; a test for a key becomes a comparison
if it says which key. -/
def editCall (s : Span) (func : Expr) (args : List Expr) (keywords : List Keyword) : Expr × List Change :=
  let same : Expr := .call s func args keywords
  match func with
  | .name ns id =>
    match newFunction? id with
    | some new => (.call s (.name ns new) args keywords, [.function id new])
    | none => (same, [])
  | .member ms value attr =>
    match newMethod? attr with
    | some new => (.call s (.member ms value new) args keywords, [.method attr new])
    | none =>
      if attr == "has_key" then
        match args with
        | key :: _ => (.compare .unknown key [.inside] [value], [.keyTest])
        | [] => (same, [.keyTest])
      else (same, [])
  | _ => (same, [])

/-- A renamed module keeps its old name for those who use it. -/
def editAlias (a : Alias) : Alias :=
  match renamedModule? a.name with
  | some new => ⟨new, some (a.asName.getD a.name)⟩
  | none => a

def editImport (s : Span) (names : List Alias) : Stmt × List Change :=
  (.importModules s (names.map editAlias),
    names.filterMap fun a => (renamedModule? a.name).map fun new => .importModule a.name new)

def editImportFrom (s : Span) (source : Option String) (names : List Alias) (level : Nat) :
    Option Stmt × List Change :=
  match source.bind fun name => (renamedSource? name).map fun new => (name, new) with
  | some (name, new) => (some (.importFrom s (some new) names level), [.importFrom name new])
  | none => (some (.importFrom s source names level), [])

def pass : Pass Change where
  call := editCall
  importModules := editImport
  importFrom := editImportFrom

def edit (m : Module) : Module := m.edit pass

def changes (m : Module) : List Change := m.notes pass

end CodeMigration.Legacy
