import CodeMigration.Proofs.TransformableTexts

/-! # Methods that are served

A route of the old framework serves its path for all methods that it lists. In its place stands one decorator, which
serves the path for the method that comes first in the list. So no method is lost only where all that are listed are the
same, up to case. The path is what stands first among the arguments, and where it is given by name it is lost too. -/

namespace CodeMigration.Flask

open Source

/-- A path that an application serves for a method. -/
structure Serving where
  app : Expr
  path : Expr
  method : String

/-- What a decorator of the new framework makes an application serve. -/
def serving? : Expr → Option Serving
  | .call _ (.member _ app method) [path] [] => some ⟨app, path, method⟩
  | _ => none

def textOf? : Expr → Option String
  | .literal _ (.text points _) => some (Text.ofPoints points)
  | _ => none

/-- How the new framework writes the name of a method. It is the same for names that differ in case only. -/
def methodName (name : String) : String := Text.lower (Text.upper name)

def rootPath : Expr := .literal .unknown (.text [47] false)

section
variable {items : List Expr} {keywords : List Keyword}

theorem ofExprs_of_texts {names : List String} (h : items.map textOf? = names.map some) :
    Method.ofExprs items = .ok (names.map fun name => .text (Text.upper name)) := by
  induction items generalizing names with
  | nil =>
    obtain rfl : names = [] := by simpa using h.symm
    rfl
  | cons e items ih =>
    cases names with
    | nil => cases h
    | cons name names =>
      obtain ⟨he, hitems⟩ := List.cons.inj h
      have hname : Method.ofExpr e = .ok (.text (Text.upper name)) := by
        unfold textOf? at he
        split at he
        · cases he
          rfl
        · cases he
      rw [Method.ofExprs, hname, ih hitems]
      rfl

theorem fromKeywords_of_no_list (found : List Method) (h : methodLists keywords = []) :
    Method.fromKeywords found keywords = .ok found := by
  fun_induction methodLists keywords with
  | case1 => rfl
  | case2 span items rest ih => cases h
  | case3 k rest hk ih => rw [Method.fromKeywords, ih h]; exact hk

theorem fromKeywords_of_one_list {ms : List Method} (found : List Method) (h : methodLists keywords = [items])
    (hms : Method.ofExprs items = .ok ms) : Method.fromKeywords found keywords = .ok ms := by
  fun_induction methodLists keywords with
  | case1 => cases h
  | case2 span list rest ih =>
    obtain ⟨rfl, hrest⟩ := List.cons.inj h
    rw [Method.fromKeywords, hms]
    exact fromKeywords_of_no_list ms hrest
  | case3 k rest hk ih => rw [Method.fromKeywords, ih h]; exact hk

theorem routeMethod_of_texts {first : String} {rest : List String} (hlist : methodLists keywords = [items])
    (hnames : items.map textOf? = (first :: rest).map some) :
    routeMethod keywords = .ok (.text (methodName first)) := by
  rw [routeMethod, Method.ofKeywords, fromKeywords_of_one_list _ hlist (ofExprs_of_texts hnames)]
  rfl

end

theorem editDecorator_of_texts {s t : Span} {app : Expr} {args items : List Expr} {keywords : List Keyword}
    {first : String} {rest : List String} (hlist : methodLists keywords = [items])
    (hnames : items.map textOf? = (first :: rest).map some) :
    (editDecorator (.call s (.member t app "route") args keywords)).1 =
      .call .unknown (.member .unknown app (methodName first)) [args.headD rootPath] [] := by
  simp [editDecorator, routeMethod_of_texts hlist hnames, memberOf, rootPath]

theorem serving?_edit (app path : Expr) (method : String) :
    serving? ((Expr.call .unknown (.member .unknown app method) [path] []).edit pass) =
      some ⟨app.edit pass, path.edit pass, method⟩ := by
  simp [Expr.edit, editExprs, editKeywords, pass, editCall, serving?]

theorem editExprs_eq_map (es : List Expr) : editExprs pass es = es.map (·.edit pass) := by
  induction es with
  | nil => rfl
  | cons e es ih => rw [editExprs, ih, List.map_cons]

/-- In place of a route that lists methods stands one decorator, and it serves the first of them. All that are listed are
served just if they are the same. -/
theorem serving_of_route (span : Span) (name : String) (params : Params) (body : List Stmt) (returns : Option Expr)
    {decorators args items : List Expr} {keywords : List Keyword} {s t : Span} {app : Expr} {i : Nat} {first : String}
    {rest : List String} (hroute : decorators[i]? = some (.call s (.member t app "route") args keywords))
    (hlist : methodLists keywords = [items]) (hnames : items.map textOf? = (first :: rest).map some) :
    ∃ decorators' e, (Stmt.functionDef span false name params body decorators returns).edit pass =
        some (.functionDef span false name (params.edit pass) (editStmts pass body) decorators' (editOpt pass returns)) ∧
      decorators'.length = decorators.length ∧ decorators'[i]? = some e ∧
      serving? e = some ⟨app.edit pass, (args.headD rootPath).edit pass, methodName first⟩ ∧
      ((∀ m ∈ first :: rest, serving? e = some ⟨app.edit pass, (args.headD rootPath).edit pass, methodName m⟩) ↔
        ∀ m ∈ rest, methodName m = methodName first) := by
  have hnew : editExprs pass (replaceDecorators pass false decorators) =
      decorators.map fun e => (editDecorator e).1.edit pass := by
    rw [editExprs_eq_map, replaceDecorators, if_neg Bool.false_ne_true, List.map_map]
    rfl
  have hserving := serving?_edit app (args.headD rootPath) (methodName first)
  refine ⟨_, _, by rw [Stmt.edit, hnew], List.length_map _, ?_, hserving, ?_⟩
  · rw [List.getElem?_map, hroute, Option.map_some, editDecorator_of_texts hlist hnames]
  · rw [hserving, List.forall_mem_cons, and_iff_right rfl]
    exact forall₂_congr fun m _ => by simp [eq_comm]

def textExpr (text : String) : Expr := .literal .unknown (.text (text.toList.map (·.toNat)) false)

def listing (methods : List String) : List Keyword :=
  [.mk (some "methods") (.display .unknown .list (methods.map textExpr))]

def decorated (methods : List String) : List Expr :=
  [.name .unknown "login",
    .call .unknown (.member .unknown (.name .unknown "app") "route") [textExpr "/x"] (listing methods)]

theorem serving_of_route_get_post :
    ∃ decorators e, (Stmt.functionDef .unknown false "f" (.mk [] [] none [] none) []
          (decorated ["GET", "POST"]) none).edit pass =
        some (.functionDef .unknown false "f" (.mk [] [] none [] none) [] decorators none) ∧
      decorators.length = 2 ∧ decorators[1]? = some e ∧
      serving? e = some ⟨.name .unknown "app", textExpr "/x", "get"⟩ ∧
      ¬∀ m ∈ ["GET", "POST"], serving? e = some ⟨.name .unknown "app", textExpr "/x", methodName m⟩ := by
  have hlist : methodLists (listing ["GET", "POST"]) = [["GET", "POST"].map textExpr] := rfl
  have hnames : (["GET", "POST"].map textExpr).map textOf? = ["GET", "POST"].map some := by decide
  have hget : methodName "GET" = "get" := by decide +kernel
  have hpost : methodName "POST" = "post" := by decide +kernel
  obtain ⟨decorators, e, hedit, hlength, hat, hserving, hall⟩ :=
    serving_of_route .unknown "f" (.mk [] [] none [] none) [] none
      (show (decorated ["GET", "POST"])[1]? = some _ from rfl) hlist hnames
  rw [hget] at hserving
  refine ⟨decorators, e, hedit, hlength, hat, hserving, fun h => ?_⟩
  have hsame := hall.1 h "POST" (List.mem_singleton_self _)
  rw [hget, hpost] at hsame
  exact absurd hsame (by decide)

/-- Of two methods the second is lost. -/
theorem transform_loses_post :
    (Flask.transform "@app.route('/x', methods=['GET', 'POST'])\ndef f():\n    pass\n").toOption =
      some ⟨"@app.get('/x')\ndef f():\n    pass", ["@route() -> @get()"]⟩ := by
  decide +kernel

end CodeMigration.Flask
