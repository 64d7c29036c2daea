import CodeMigration.Finding
import CodeMigration.Flask.Method
import CodeMigration.Source.Outline
import CodeMigration.Source.Segment

/-! # Finding uses of the old web framework in a tree -/

namespace CodeMigration.Flask

open Source

inductive Import where
  | app | request | blueprint | jsonify

inductive RequestPart where
  | form | args | json | files | cookies

def RequestPart.name : RequestPart → String
  | form => "form"
  | args => "args"
  | json => "json"
  | files => "files"
  | cookies => "cookies"

def RequestPart.ofName? : String → Option RequestPart
  | "form" => some form
  | "args" => some args
  | "json" => some json
  | "files" => some files
  | "cookies" => some cookies
  | _ => none

inductive Helper where
  | jsonify | renderTemplate | redirect | abort

def Helper.ofName? : String → Option Helper
  | "jsonify" => some jsonify
  | "render_template" => some renderTemplate
  | "redirect" => some redirect
  | "abort" => some abort
  | _ => none

def isVerb (name : String) : Bool := ["get", "post", "put", "delete", "patch"].contains name

/-- What a node is to be reported for; `function` is the function around it. -/
inductive Site where
  | imported (what : Import)
  | appCreation (name : String)
  | route (function : String) (keywords : List Keyword)
  | verb (name : String)
  | requestPart (part : RequestPart) (function : String)
  | helper (h : Helper) (function : String)

def isFlaskModule (name : String) : Bool := Text.contains (Text.lower name) "flask"

def importSites (s : Span) (names : List Alias) : List (Span × Site) :=
  let has (name : String) : Bool := names.any (·.name == name)
  [("Flask", Import.app), ("request", .request), ("Blueprint", .blueprint), ("jsonify", .jsonify)].filterMap
    fun (name, what) => if has name then some (s, .imported what) else none

def decoratorSites (function : String) : Expr → List (Span × Site)
  | .call s (.member _ _ attr) _ keywords =>
    if attr == "route" then [(s, .route function keywords)]
    else if isVerb attr then [(s, .verb attr)]
    else []
  | _ => []

def innerSites (function : String) : Label → List (Span × Site)
  | .expr (.member s (.name _ "request") attr) =>
    ((RequestPart.ofName? attr).map fun part => (s, .requestPart part function)).toList
  | .expr (.call s (.name _ id) _ _) => ((Helper.ofName? id).map fun h => (s, .helper h function)).toList
  | _ => []

/-- The sites that a visit of a node reports, those of all nodes inside it for a function. -/
def sitesOf (o : Outline) : List (Span × Site) :=
  match o.label with
  | .stmt (.importFrom s (some name) names _) => if isFlaskModule name then importSites s names else []
  | .stmt (.assign s targets (.call _ (.name _ "Flask") _ _)) =>
    targets.filterMap fun
      | .name _ id => some (s, .appCreation id)
      | _ => none
  | .stmt (.functionDef _ false name _ _ decorators _) =>
    decorators.flatMap (decoratorSites name) ++ o.breadthFirst.flatMap (innerSites name)
  | _ => []

def sites (m : Module) : List (Span × Site) := m.outline.preorder.flatMap sitesOf

/-- The methods in lower case joined by a text; bytes cannot be joined. -/
def joinMethods (index : Nat) : List Method → Except Failure (List String)
  | [] => .ok []
  | .bytes _ :: _ => .error (.bytesItem index)
  | .text name :: rest => do
    let more ← joinMethods (index + 1) rest
    pure (Text.lower name :: more)

def routeFix (methods : List Method) : Except Failure String :=
  match methods with
  | [m] => .ok ("Use @app." ++ m.lower.shown ++ "('/path') decorator")
  | ms => do
    let names ← joinMethods 0 ms
    pure ("Split into multiple routes: @app." ++ ", @app.".intercalate names ++ "()")

/-- A site as it is told: kind, description, severity and fix. -/
structure Told where
  kind : String
  description : String
  severity : String := "warning"
  fix : String

def Import.told : Import → Told
  | app => { kind := "flask_import", description := "Flask application import", severity := "info",
             fix := "Replace with 'from fastapi import FastAPI'" }
  | request => { kind := "flask_request_import", description := "Flask request object import",
                 fix := "Use FastAPI dependency injection instead" }
  | blueprint => { kind := "flask_blueprint_import", description := "Flask Blueprint import",
                   fix := "Replace with 'from fastapi import APIRouter'" }
  | jsonify => { kind := "flask_jsonify_import", description := "Flask jsonify import",
                 fix := "FastAPI returns JSON by default, remove jsonify" }

def Helper.told (function : String) : Helper → Told
  | jsonify => { kind := "flask_jsonify_call", description := "Flask jsonify() call in " ++ function ++ "()",
                 fix := "Return dict or Pydantic model directly" }
  | renderTemplate => { kind := "flask_render_template",
                        description := "Flask render_template() call in " ++ function ++ "()",
                        fix := "Use FastAPI Jinja2Templates or return HTML response" }
  | redirect => { kind := "flask_redirect", description := "Flask redirect() call in " ++ function ++ "()",
                  fix := "Use FastAPI RedirectResponse" }
  | abort => { kind := "flask_abort", description := "Flask abort() call in " ++ function ++ "()",
               fix := "Raise HTTPException instead" }

def Site.told : Site → Except Failure Told
  | imported what => .ok what.told
  | appCreation name =>
    .ok { kind := "flask_app_creation", description := "Flask app instantiation: " ++ name, severity := "info",
          fix := "Replace with 'app = FastAPI()'" }
  | route function keywords => do
    let fix ← routeFix (← Method.ofKeywords keywords)
    pure { kind := "flask_route_decorator", description := "Flask @route decorator on " ++ function ++ "()", fix }
  | verb name =>
    .ok { kind := "flask_method_decorator", description := "Flask @" ++ name ++ " decorator", severity := "info",
          fix := "Update to FastAPI @app." ++ name ++ "() with path parameters" }
  | requestPart part function =>
    .ok { kind := "flask_request_" ++ part.name,
          description := "Flask request." ++ part.name ++ " usage in " ++ function ++ "()",
          fix := "Use FastAPI dependency injection or Pydantic models" }
  | helper h function => .ok (h.told function)

def report (src : SourceText) (count : Nat) : List (Span × Site) → Except Failure (List Finding)
  | [] => .ok []
  | (s, site) :: rest => do
    let told ← site.told
    match src.segment? s with
    | none => .error .noSuchItem
    | some code =>
      let more ← report src (count + 1) rest
      pure ({ id := "flask_" ++ toString (count + 1), kind := told.kind, description := told.description,
              place := .ofSpan s, code, severity := told.severity, fix := told.fix } :: more)

def scan (source : String) (m : Module) : Except Failure (List Finding) :=
  report (.ofString source) 0 (sites m)

end CodeMigration.Flask
