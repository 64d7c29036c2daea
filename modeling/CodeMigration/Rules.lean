import CodeMigration.Finding
import CodeMigration.Failure
import CodeMigration.Regex.Match

/-! # Rules by regular expression

A rule reports each line in which its pattern is found. -/

namespace CodeMigration

structure Rule where
  id : String
  kind : String
  description : String
  regex : Option String := none
  /-- Lines, with their numbers, that the rule applies to; all if there is no condition. -/
  condition : Option (String → Nat → Bool) := none
  severity : String := "warning"
  fix : String := ""
  metadata : Json.Value := .object []

namespace Rule

def legacy : List Rule := [
  { id := "print_stmt", kind := "print_statement", description := "Python 2 print statement",
    regex := some "^\\s*print\\s+[^(]", severity := "error", fix := "Convert to print() function" },
  { id := "except_comma", kind := "except_comma_syntax", description := "Python 2 except syntax with comma",
    regex := some "except\\s+\\w+\\s*,\\s*\\w+\\s*:", severity := "error",
    fix := "Use 'except Exception as e:' syntax" },
  { id := "backtick_repr", kind := "backtick_repr", description := "Python 2 backtick repr syntax",
    regex := some "`[^`]+`", severity := "error", fix := "Use repr() function instead" },
  { id := "octal_literal", kind := "octal_literal", description := "Python 2 octal literal (0NNN)",
    regex := some "\\b0[0-7]+\\b(?!o)", fix := "Use 0oNNN octal syntax" },
  { id := "ur_string", kind := "ur_string_prefix", description := "Python 2 ur'' string prefix",
    regex := some "\\bur[\"\\']", severity := "error", fix := "ur'' is not valid in Python 3" }]

def flask : List Rule := [
  { id := "flask_run", kind := "flask_run", description := "Flask app.run() call",
    regex := some "\\.run\\s*\\([^)]*debug\\s*=", severity := "info",
    fix := "Use uvicorn.run() or command line: uvicorn app:app --reload" },
  { id := "flask_config", kind := "flask_config", description := "Flask app.config usage",
    regex := some "app\\.config\\[", fix := "Use Pydantic Settings for configuration" },
  { id := "flask_secret_key", kind := "flask_secret_key", description := "Flask secret key configuration",
    regex := some "app\\.secret_key\\s*=", fix := "Use environment variables for secrets" },
  { id := "flask_before_request", kind := "flask_before_request",
    description := "Flask before_request decorator", regex := some "@\\w+\\.before_request",
    fix := "Use FastAPI middleware or dependencies" },
  { id := "flask_after_request", kind := "flask_after_request",
    description := "Flask after_request decorator", regex := some "@\\w+\\.after_request",
    fix := "Use FastAPI middleware" }]

def default : List Rule := legacy ++ flask

def findIn (r : Rule) (pattern : Regex.Compiled) (file : String) (number : Nat) (line : String) : Option Finding :=
  match pattern.search? line with
  | none => none
  | some (start, stop) =>
    if r.condition.all fun test => test line number then
      some { id := r.id ++ "_" ++ toString number, kind := r.kind, description := r.description,
             place := ⟨file, number, number, start, stop⟩, code := Text.strip line, severity := r.severity,
             fix := r.fix, metadata := r.metadata }
    else none

def findFrom (r : Rule) (pattern : Regex.Compiled) (file : String) : Nat → List String → List Finding
  | _, [] => []
  | number, line :: rest =>
    (r.findIn pattern file number line).toList ++ findFrom r pattern file (number + 1) rest

def find (r : Rule) (file : String) (lines : List String) : Except Failure (List Finding) :=
  match r.regex with
  | none | some "" => .ok []
  | some text =>
    match Regex.compile text with
    | .error fault => .error (.regex text fault)
    | .ok pattern => .ok (r.findFrom pattern file 1 lines)

/-- The findings of rules one after the other, up to the first rule that cannot be applied. -/
def findAll (file : String) (lines : List String) : List Rule → Partial Finding
  | [] => ⟨[], none⟩
  | r :: rest => (Partial.ofExcept (r.find file lines)).append (findAll file lines rest)

def remove (id : String) : List Rule → Bool × List Rule
  | [] => (false, [])
  | r :: rest =>
    if r.id == id then (true, rest)
    else
      let (removed, rest) := remove id rest
      (removed, r :: rest)

/-- The kinds of rules that belong to a migration, by its name. -/
def kindsFor : String → List String
  | "py2to3" => ["print_statement", "except_comma_syntax", "backtick_repr", "octal_literal", "ur_string_prefix",
      "xrange_usage", "raw_input_usage", "unicode_usage", "long_usage"]
  | "flask_to_fastapi" => ["flask_run", "flask_config", "flask_secret_key", "flask_before_request",
      "flask_after_request", "flask_route_decorator"]
  | _ => []

def forMigration (migration : String) (rules : List Rule) : List Rule :=
  rules.filter fun r => (kindsFor migration).contains r.kind

end Rule

def matchRules (rules : List Rule) (file source : String) : Except Failure (List Finding) :=
  (Rule.findAll file (Text.lines source) rules).toExcept

end CodeMigration
