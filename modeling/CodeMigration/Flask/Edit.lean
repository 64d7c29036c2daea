import CodeMigration.Flask.Scan
import CodeMigration.Source.Edit

/-! # Replacing uses of the old web framework in a tree -/

namespace CodeMigration.Flask

open Source

/-- Imported names that the new framework has others for, or none. -/
inductive Renamed where
  | app | blueprint | request | jsonify | redirect | abort

def Renamed.ofName? : String → Option Renamed
  | "Flask" => some app
  | "Blueprint" => some blueprint
  | "request" => some request
  | "jsonify" => some jsonify
  | "redirect" => some redirect
  | "abort" => some abort
  | _ => none

def Renamed.successors : Renamed → List String
  | app => ["FastAPI"]
  | blueprint => ["APIRouter"]
  | request => ["Request", "Depends"]
  | jsonify => []
  | redirect => ["RedirectResponse"]
  | abort => ["HTTPException"]

inductive Change where
  | imported (what : Renamed)
  | createApp
  | createRouter
  | route (m : Method)
  | jsonifyCall
  | abortCall

def Change.text : Change → String
  | imported .app => "Flask -> FastAPI"
  | imported .blueprint => "Blueprint -> APIRouter"
  | imported .request => "request -> Request, Depends"
  | imported .jsonify => "jsonify removed (not needed)"
  | imported .redirect => "redirect -> RedirectResponse"
  | imported .abort => "abort -> HTTPException"
  | createApp => "Flask(__name__) -> FastAPI()"
  | createRouter => "Blueprint() -> APIRouter()"
  | route m => "@route() -> @" ++ m.shown ++ "()"
  | jsonifyCall => "jsonify(x) -> x"
  | abortCall => "abort(n) -> raise HTTPException(status_code=n)"

/-- What a pass notes: a change, the name of the application, or why it cannot go on. -/
inductive Event where
  | change (c : Change)
  | app (name : String)
  | fault (f : Failure)

/-- The calls whose result the new framework gives by itself or in another way. -/
def editCall (s : Span) (func : Expr) (args : List Expr) (keywords : List Keyword) : Expr × List Event :=
  match func with
  | .name _ "jsonify" =>
    (args.headD (.dict .unknown []), [.change .jsonifyCall])
  | .name _ "abort" =>
    let code := args.headD (.literal .unknown (.int 500))
    (.call .unknown (.name .unknown "HTTPException") [] [.mk (some "status_code") code],
      [.change .abortCall])
  | func => (.call s func args keywords, [])

def routeMethod (keywords : List Keyword) : Except Failure Method := do
  match ← Method.ofKeywords keywords with
  | m :: _ => pure m.lower
  | [] => .error .noSuchItem

def memberOf (value : Expr) : Method → Expr
  | .text name => .member .unknown value name
  | .bytes name => .byteMember .unknown value name

/-- A route becomes a call of its method with the path alone. -/
def editDecorator (e : Expr) : Expr × List Event :=
  match e with
  | .call _ (.member _ value "route") args keywords =>
    match routeMethod keywords with
    | .ok m =>
      let path := args.headD (.literal .unknown (.text [47] false))
      (.call .unknown (memberOf value m) [path] [], [.change (.route m)])
    | .error f => (e, [.fault f])
  | e => (e, [])

def targetNames (targets : List Expr) : List String :=
  targets.filterMap fun
    | .name _ id => some id
    | _ => none

def urlPrefix? : List Keyword → Option Expr
  | [] => none
  | .mk (some "url_prefix") value :: _ => some value
  | _ :: rest => urlPrefix? rest

/-- The application and its parts are made anew. -/
def editAssign (s : Span) (targets : List Expr) (value : Expr) : Stmt × List Event :=
  match value with
  | .call cs (.name ns "Flask") _ keywords =>
    (.assign s targets (.call cs (.name ns "FastAPI") [] keywords),
      (targetNames targets).map .app ++ [.change .createApp])
  | .call cs (.name ns "Blueprint") _ keywords =>
    let kept := (urlPrefix? keywords).map fun value => Keyword.mk (some "prefix") value
    (.assign s targets (.call cs (.name ns "APIRouter") [] kept.toList), [.change .createRouter])
  | value => (.assign s targets value, [])

/-- An import gives way to one of the new framework; if nothing is needed from there the other names
stay, and without any the import vanishes. -/
def editImportFrom (s : Span) (source : Option String) (names : List Alias) (level : Nat) :
    Option Stmt × List Event :=
  match source with
  | some name =>
    if isFlaskModule name then
      let renamed := names.filterMap fun a => Renamed.ofName? a.name
      let kept := names.filter fun a => (Renamed.ofName? a.name).isNone
      let new := renamed.flatMap Renamed.successors
      let events := renamed.map fun what => Event.change (.imported what)
      if !new.isEmpty then
        (some (.importFrom .unknown (some "fastapi") (new.map fun n => ⟨n, none⟩) 0), events)
      else if !kept.isEmpty then (some (.importFrom s source kept level), events)
      else (none, events)
    else (some (.importFrom s source names level), [])
  | none => (some (.importFrom s source names level), [])

def pass : Pass Event where
  call := editCall
  decorator := editDecorator
  assign := editAssign
  importFrom := editImportFrom

def edit (m : Module) : Module := m.edit pass

def events (m : Module) : List Event := m.notes pass

def changesOf : List Event → List Change
  | [] => []
  | .change c :: rest => c :: changesOf rest
  | _ :: rest => changesOf rest

def faultOf? : List Event → Option Failure
  | [] => none
  | .fault f :: _ => some f
  | _ :: rest => faultOf? rest

/-- The changes of a module, or the fault that keeps it from being edited. -/
def changes (m : Module) : Except Failure (List Change) :=
  match faultOf? (events m) with
  | some f => .error f
  | none => .ok (changesOf (events m))

end CodeMigration.Flask
