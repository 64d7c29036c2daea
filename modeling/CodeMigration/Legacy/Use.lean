import CodeMigration.Source.Tree

/-! # Uses of what the old language had

Functions, methods and modules that are gone or renamed, each with what a report says about it. -/

namespace CodeMigration.Legacy

inductive OldFunction where
  | xrange | rawInput | execfile | unicode | long
  deriving DecidableEq

namespace OldFunction

def name : OldFunction → String
  | xrange => "xrange"
  | rawInput => "raw_input"
  | execfile => "execfile"
  | unicode => "unicode"
  | long => "long"

def ofName? : String → Option OldFunction
  | "xrange" => some xrange
  | "raw_input" => some rawInput
  | "execfile" => some execfile
  | "unicode" => some unicode
  | "long" => some long
  | _ => none

def successor? : OldFunction → Option String
  | xrange => some "range"
  | rawInput => some "input"
  | execfile => none
  | unicode => some "str"
  | long => some "int"

end OldFunction

inductive OldMethod where
  | iteritems | iterkeys | itervalues | hasKey
  deriving DecidableEq

namespace OldMethod

def name : OldMethod → String
  | iteritems => "iteritems"
  | iterkeys => "iterkeys"
  | itervalues => "itervalues"
  | hasKey => "has_key"

def ofName? : String → Option OldMethod
  | "iteritems" => some iteritems
  | "iterkeys" => some iterkeys
  | "itervalues" => some itervalues
  | "has_key" => some hasKey
  | _ => none

def successor? : OldMethod → Option String
  | iteritems => some "items"
  | iterkeys => some "keys"
  | itervalues => some "values"
  | hasKey => none

end OldMethod

/-- Modules that are imported and that are renamed. -/
def reportedModule? : String → Option String
  | "ConfigParser" => some "configparser"
  | "Queue" => some "queue"
  | "SocketServer" => some "socketserver"
  | "repr" => some "reprlib"
  | "tkFileDialog" => some "tkinter.filedialog"
  | "Tkinter" => some "tkinter"
  | _ => none

/-- Modules from which names are imported and that are renamed or moved. -/
def reportedSource? : String → Option String
  | "ConfigParser" => some "configparser"
  | "Queue" => some "queue"
  | "SocketServer" => some "socketserver"
  | "urllib2" => some "urllib.request"
  | "urlparse" => some "urllib.parse"
  | "StringIO" => some "io"
  | "cStringIO" => some "io"
  | _ => none

inductive Use where
  | function (f : OldFunction)
  | method (m : OldMethod)
  | importModule (name successor : String)
  | importFrom (name successor : String)
  | division
  | exceptComma
  deriving DecidableEq

namespace Use

def kind : Use → String
  | function f => f.name ++ "_usage"
  | method m => m.name ++ "_usage"
  | importModule .. => "renamed_module"
  | importFrom .. => "renamed_module_import"
  | division => "division_behavior"
  | exceptComma => "old_except_syntax"

def description : Use → String
  | function f => f.name ++ "() is not available in Python 3"
  | method m => "dict." ++ m.name ++ "() is not available in Python 3"
  | importModule name _ => "Module '" ++ name ++ "' is renamed in Python 3"
  | importFrom name _ => "Module '" ++ name ++ "' is renamed/moved in Python 3"
  | division => "Integer division behavior differs in Python 3"
  | exceptComma => "Old-style except syntax with comma"

def severity : Use → String
  | function .execfile => "error"
  | division => "info"
  | _ => "warning"

def fix : Use → String
  | function f =>
    match f.successor? with
    | some new => "Replace " ++ f.name ++ "() with " ++ new ++ "()"
    | none => "Use exec(open(file).read()) instead"
  | method m =>
    match m.successor? with
    | some new => "Replace ." ++ m.name ++ "() with ." ++ new ++ "()"
    | none => "Use 'key in dict' instead"
  | importModule _ new => "Use '" ++ new ++ "' instead"
  | importFrom _ new => "Import from '" ++ new ++ "' instead"
  | division => "Use // for integer division, / for true division"
  | exceptComma => "Use 'except Exception as e:' syntax"

end Use

end CodeMigration.Legacy
