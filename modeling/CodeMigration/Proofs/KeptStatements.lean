import CodeMigration.Proofs.FlaskEdits
import CodeMigration.Proofs.TransformableTexts

/-! # Statements that are kept and statements that vanish

A pass edits each statement where it stands, so the statements of the edited tree are those of the tree, edited one by
one and in their order; only imports can vanish. For the new web framework one import stands in the place of another,
and it has no room for the names that both frameworks have: they are lost as soon as another name has a successor. -/

namespace CodeMigration

namespace Source

variable {ε : Type} {p : Pass ε}

def stmtsAt : Label → List Stmt
  | .stmt s => [s]
  | _ => []

@[simp] theorem stmtsAt_ofStmts : Outline.OfStmts stmtsAt := ⟨fun _ => rfl, rfl⟩

/-- The statements of a module, each before those that stand in it. -/
def Module.stmts (m : Module) : List Stmt := m.outline.tell stmtsAt

def Handler.body : Handler → List Stmt
  | .mk _ _ _ body => body

def Case.body : Case → List Stmt
  | .mk _ _ body => body

/-- The suites of a statement that must hold something. -/
def Stmt.suites : Stmt → List (List Stmt)
  | .functionDef _ _ _ _ body _ _ | .classDef _ _ _ _ body _ | .ifElse _ _ body _ | .whileLoop _ _ body _
  | .forLoop _ _ _ _ body _ | .withBlock _ _ _ body => [body]
  | .tryBlock _ _ body handlers _ _ => body :: handlers.map Handler.body
  | .matchCases _ _ cases => cases.map Case.body
  | _ => []

def Module.suites (m : Module) : List (List Stmt) := m.stmts.flatMap Stmt.suites

/-- A pass that puts no suite in the place of an assignment or an import. -/
structure Pass.PutsSimple (p : Pass ε) : Prop where
  assign : ∀ s targets value, (p.assign s targets value).1.suites = []
  importModules : ∀ s names, (p.importModules s names).1.suites = []
  importFrom : ∀ s source names level, ∀ t ∈ (p.importFrom s source names level).1, t.suites = []

theorem editStmts_eq_filterMap (ss : List Stmt) : editStmts p ss = ss.filterMap (Stmt.edit p) := by
  induction ss with
  | nil => rfl
  | cons s ss ih =>
    rw [editStmts, List.filterMap_cons, ih]
    cases s.edit p <;> rfl

section

attribute [local simp] Stmt.edit Stmt.outline Stmt.suites stmtsAt Outline.Inside.tell Outline.Insides.tells

theorem Stmt.tell_of_suites {s : Stmt} (h : s.suites = []) : s.outline.tell stmtsAt = [s] := by
  cases s <;> simp_all [caseOutlines]

mutual

theorem Stmt.tells_edit (hp : p.PutsSimple) (s : Stmt) :
    (s.edit p).toList.flatMap (·.outline.tell stmtsAt) = (s.outline.tell stmtsAt).filterMap (Stmt.edit p) := by
  cases s with
  | assign s targets value => simp [Stmt.tell_of_suites (hp.assign ..)]
  | importModules s names => simp [Stmt.tell_of_suites (hp.importModules ..)]
  | importFrom s source names level =>
    have hput := hp.importFrom s source names level
    cases h : (p.importFrom s source names level).1 with
    | none => simp [h]
    | some t => simp [h, Stmt.tell_of_suites (hput t h)]
  | _ => simp [-List.map_map, tells_editStmts hp, tells_editHandlers hp, tells_editCases hp]

theorem tells_editStmts (hp : p.PutsSimple) (ss : List Stmt) : Outline.tells stmtsAt (stmtOutlines (editStmts p ss)) =
    (Outline.tells stmtsAt (stmtOutlines ss)).filterMap (Stmt.edit p) := by
  cases ss with
  | nil => simp [stmtOutlines, editStmts]
  | cons s ss =>
    rw [stmtOutlines, Outline.tells_cons, List.filterMap_append, ← Stmt.tells_edit hp, ← tells_editStmts hp, editStmts]
    cases s.edit p <;> simp [stmtOutlines]

theorem tells_editHandlers (hp : p.PutsSimple) (hs : List Handler) :
    Outline.tells stmtsAt (handlerOutlines (editHandlers p hs)) =
      (Outline.tells stmtsAt (handlerOutlines hs)).filterMap (Stmt.edit p) := by
  rcases hs with _ | ⟨⟨⟩, hs⟩ <;>
    simp [editHandlers, handlerOutlines, tells_editStmts hp, tells_editHandlers hp]

theorem tells_editCases (hp : p.PutsSimple) (cs : List Case) : Outline.tells stmtsAt (caseOutlines (editCases p cs)) =
    (Outline.tells stmtsAt (caseOutlines cs)).filterMap (Stmt.edit p) := by
  rcases cs with _ | ⟨⟨⟩, cs⟩ <;> simp [editCases, caseOutlines, tells_editStmts hp, tells_editCases hp]

end

theorem Module.stmts_edit (hp : p.PutsSimple) (m : Module) : (m.edit p).stmts = m.stmts.filterMap (Stmt.edit p) := by
  simp [Module.stmts, Module.outline, Module.edit, tells_editStmts hp]

theorem map_body_editHandlers (hs : List Handler) :
    (editHandlers p hs).map Handler.body = (hs.map Handler.body).map (editStmts p) := by
  induction hs with
  | nil => rfl
  | cons h hs ih => cases h; simp [editHandlers, ih, Handler.body]

theorem map_body_editCases (cs : List Case) :
    (editCases p cs).map Case.body = (cs.map Case.body).map (editStmts p) := by
  induction cs with
  | nil => rfl
  | cons c cs ih => cases c; simp [editCases, ih, Case.body]

theorem Stmt.suites_edit (hp : p.PutsSimple) (s : Stmt) :
    (s.edit p).toList.flatMap Stmt.suites = s.suites.map (editStmts p) := by
  cases s with
  | assign s targets value => exact (List.flatMap_singleton ..).trans (hp.assign ..)
  | importModules s names => exact (List.flatMap_singleton ..).trans (hp.importModules ..)
  | importFrom s source names level => simpa [List.flatMap_eq_nil_iff] using hp.importFrom s source names level
  | tryBlock s star body handlers orelse cleanup => simp [map_body_editHandlers, -List.map_map]
  | matchCases s subject cases => simp [map_body_editCases, -List.map_map]
  | _ => simp

theorem Module.suites_edit (hp : p.PutsSimple) (m : Module) : (m.edit p).suites = m.suites.map (editStmts p) := by
  rw [Module.suites, Module.suites, Module.stmts_edit hp, List.map_flatMap, List.filterMap_eq_flatMap_toList,
    List.flatMap_assoc]
  exact List.flatMap_congr fun s _ => s.suites_edit hp

end

end Source

namespace Flask

open Source

theorem exists_importFrom {s : Span} {source : Option String} {names : List Alias} {level : Nat} {t : Stmt}
    (ht : t ∈ (editImportFrom s source names level).1) :
    ∃ s' source' names' level', t = .importFrom s' source' names' level' := by
  cases source with
  | none =>
    cases ht
    exact ⟨_, _, _, _, rfl⟩
  | some name =>
    simp only [editImportFrom] at ht
    split at ht
    · split at ht
      · cases ht
        exact ⟨_, _, _, _, rfl⟩
      · split at ht <;> cases ht
        exact ⟨_, _, _, _, rfl⟩
    · cases ht
      exact ⟨_, _, _, _, rfl⟩

theorem pass_putsSimple : pass.PutsSimple where
  assign s targets value := by
    simp only [pass, editAssign]
    split <;> rfl
  importModules _ _ := rfl
  importFrom s source names level := by
    intro t ht
    obtain ⟨_, _, _, _, rfl⟩ := exists_importFrom ht
    rfl

/-- The value of an assignment: a plain one, one with an operator, or one with a hint. -/
def assigned? : Stmt → Option Expr
  | .assign _ _ value | .augAssign _ _ _ value => some value
  | .annAssign _ _ _ value _ => value
  | _ => none

/-- The value of an assignment with an operator or a hint. -/
def specialValue? : Stmt → Option Expr
  | .augAssign _ _ _ value => some value
  | .annAssign _ _ _ value _ => value
  | _ => none

def plainName? : Expr → Option String
  | .name _ id => some id
  | _ => none

def calledName? : Expr → Option String
  | .call _ func _ _ => plainName? func
  | _ => none

def appNames : List (Option String) := [some "Flask", some "Blueprint"]

mutual

/-- The plain name that an edit leaves of an expression. -/
def nameLeft? : Expr → Option String
  | .name _ id => some id
  | .call _ func args _ => if nameLeft? func = some "jsonify" then firstNameLeft? args else none
  | _ => none

def firstNameLeft? : List Expr → Option String
  | [] => none
  | e :: _ => nameLeft? e

end

mutual

/-- The plain name that is called in what an edit leaves of an expression. -/
def calledLeft? : Expr → Option String
  | .call _ func args _ =>
    if nameLeft? func = some "jsonify" then firstCalledLeft? args
    else if nameLeft? func = some "abort" then some "HTTPException" else nameLeft? func
  | _ => none

def firstCalledLeft? : List Expr → Option String
  | [] => none
  | e :: _ => calledLeft? e

end

/-- What becomes of a call is told by the plain name of its edited callee. -/
theorem edit_call (s : Span) (func : Expr) (args : List Expr) (keywords : List Keyword) :
    (Expr.call s func args keywords).edit pass =
      if plainName? (func.edit pass) = some "jsonify" then (editExprs pass args).headD (.dict .unknown [])
      else if plainName? (func.edit pass) = some "abort" then .call .unknown (.name .unknown "HTTPException") []
        [.mk (some "status_code") ((editExprs pass args).headD (.literal .unknown (.int 500)))]
      else .call s (func.edit pass) (editExprs pass args) (editKeywords pass keywords) := by
  rw [Expr.edit]
  change (editCall ..).1 = _
  unfold editCall
  split
  · rename_i hfunc
    simp [hfunc, plainName?]
  · rename_i hfunc
    simp [hfunc, plainName?]
  · rename_i hjsonify habort
    cases hfunc : func.edit pass with
    | name ns id =>
      have hj : id ≠ "jsonify" := by
        rintro rfl
        exact hjsonify ns hfunc
      have ha : id ≠ "abort" := by
        rintro rfl
        exact habort ns hfunc
      simp [plainName?, hj, ha]
    | _ => rfl

section

attribute [local simp] plainName? calledName? nameLeft? calledLeft?

mutual

theorem plainName?_edit (e : Expr) : plainName? (e.edit pass) = nameLeft? e := by
  cases e with
  | call s func args keywords =>
    have hfirst := plainName?_headD args
    rw [edit_call, plainName?_edit func, nameLeft?]
    split
    · exact hfirst
    · split <;> rfl
  | _ => simp [Expr.edit]

theorem plainName?_headD (es : List Expr) :
    plainName? ((editExprs pass es).headD (.dict .unknown [])) = firstNameLeft? es := by
  cases es with
  | nil => rfl
  | cons e es => exact plainName?_edit e

end

mutual

theorem calledName?_edit (e : Expr) : calledName? (e.edit pass) = calledLeft? e := by
  cases e with
  | call s func args keywords =>
    have hfirst := calledName?_headD args
    rw [edit_call, plainName?_edit func, calledLeft?]
    split
    · exact hfirst
    · split
      · rfl
      · exact plainName?_edit func
  | _ => simp [Expr.edit]

theorem calledName?_headD (es : List Expr) :
    calledName? ((editExprs pass es).headD (.dict .unknown [])) = firstCalledLeft? es := by
  cases es with
  | nil => rfl
  | cons e es => exact calledName?_edit e

end

/-- A plain assignment makes no old application once it is edited. -/
theorem calledName?_assign (s : Span) (targets : List Expr) (value : Expr) :
    ∀ v ∈ assigned? (pass.assign s targets value).1, calledName? v ∉ appNames := by
  change ∀ v ∈ assigned? (editAssign ..).1, _
  unfold editAssign
  split
  · simp [assigned?, appNames]
  · simp [assigned?, appNames]
  · rename_i hflask hblueprint
    rintro v ⟨⟩ happ
    cases value with
    | call cs func args keywords =>
      cases func with
      | name ns id =>
        have hid : id = "Flask" ∨ id = "Blueprint" := by simpa [appNames] using happ
        rcases hid with rfl | rfl
        · exact hflask cs ns args keywords rfl
        · exact hblueprint cs ns args keywords rfl
      | _ => simp [appNames] at happ
    | _ => simp [appNames] at happ

end

/-- A statement that assigns what `Flask` or `Blueprint` gives when called by its plain name, in whatever way. -/
def AssignsApp (s : Stmt) : Prop := ∃ v ∈ assigned? s, calledName? v ∈ appNames

/-- An edited statement does so just if it is one with an operator or a hint whose value comes to be such a call. -/
theorem exists_assignsApp_edit_iff (s : Stmt) :
    (∃ t ∈ s.edit pass, AssignsApp t) ↔ ∃ v ∈ specialValue? s, calledLeft? v ∈ appNames := by
  cases s with
  | assign s targets value =>
    have hnone := calledName?_assign s (editExprs pass targets) (value.edit pass)
    simpa [Stmt.edit, specialValue?, AssignsApp] using hnone
  | importFrom s source names level =>
    simp only [Stmt.edit, specialValue?, Option.mem_def, reduceCtorEq, false_and, exists_false, iff_false]
    rintro ⟨t, ht, v, hv, -⟩
    obtain ⟨_, _, _, _, rfl⟩ := exists_importFrom ht
    cases hv
  | annAssign s target hint value simple =>
    cases value <;> simp [Stmt.edit, specialValue?, AssignsApp, assigned?, editOpt, calledName?_edit]
  | importModules s names => simp [Stmt.edit, pass, specialValue?, AssignsApp, assigned?]
  | _ => simp [Stmt.edit, specialValue?, AssignsApp, assigned?, calledName?_edit]

/-- Whatever the tree, after an edit there is no call of `jsonify` or `abort`, no plain assignment of an application or a
blueprint of the old framework and no import of a moved name from it. With the other kinds of assignment none is left
just if the value of none of those comes to be one. Where there are no routes to replace, the trees of the first form
are exactly those that an edit keeps. -/
theorem edit_leaves_apps_with_hints (m : Module) :
    (edit m).outline.All IsMoved ∧
    ((∀ s ∈ (edit m).stmts, ¬AssignsApp s) ↔ ∀ s ∈ m.stmts, ∀ v ∈ specialValue? s, calledLeft? v ∉ appNames) ∧
    (m.outline.All IsSettled → (edit m = m ↔ m.outline.All IsMoved)) := by
  refine ⟨all_edit_isMoved m, ?_, edit_eq_self_iff⟩
  rw [edit, Module.stmts_edit pass_putsSimple]
  have hstmt : ∀ s ∈ m.stmts, (∀ t, s.edit pass = some t → ¬AssignsApp t) ↔
      ∀ v ∈ specialValue? s, calledLeft? v ∉ appNames := by
    intro s _
    have hs := (exists_assignsApp_edit_iff s).not
    simpa only [not_exists, not_and, Option.mem_def] using hs
  rw [← forall₂_congr hstmt]
  simp only [List.mem_filterMap, forall_exists_index, and_imp]
  exact ⟨fun h s hs t ht => h t s hs ht, fun h t s hs ht => h s hs t ht⟩

/-- Calls that give way to names, which are then called in their turn. -/
def nestedCalls : String :=
  "from flask import jsonify, g\napp = jsonify(Flask)(jsonify(jsonify)(abort)(404))\n" ++
    "b: jsonify(Flask) = jsonify(g)()\n@app.route('/')\ndef f():\n    pass\n"

theorem edit_leaves_apps_with_hints_nestedCalls :
    ∃ m cs, Module.ofString nestedCalls = .ok m ∧ changes m = .ok cs ∧ cs.length = 9 ∧
      (edit m).outline.All IsMoved ∧ ∀ s ∈ (edit m).stmts, ¬AssignsApp s := by
  have hruns : ((Module.ofString nestedCalls).toOption.any fun m => (changes m).toOption.any fun cs =>
      cs.length == 9 && m.stmts.all fun s => (specialValue? s).all fun v => calledLeft? v ∉ appNames) = true := by
    decide +kernel
  obtain ⟨m, hm, hruns⟩ := Legacy.exists_ok_of_any hruns
  obtain ⟨cs, hcs, hruns⟩ := Legacy.exists_ok_of_any hruns
  obtain ⟨hcount, hvalues⟩ := Bool.and_eq_true_iff.1 hruns
  obtain ⟨hmoved, happs, -⟩ := edit_leaves_apps_with_hints m
  refine ⟨m, cs, hm, hcs, beq_iff_eq.1 hcount, hmoved, happs.2 fun s hs v hv => ?_⟩
  have hvalue := List.all_eq_true.1 hvalues s hs
  rw [Option.mem_def.1 hv] at hvalue
  simpa using hvalue

def hintedApp : String := "app: Flask = Flask(__name__)\n"

/-- With a hint the application of the old framework stays, and nothing is noted about it. -/
theorem hintedApp_stays :
    (∃ m, Module.ofString hintedApp = .ok m ∧ ∃ s ∈ (edit m).stmts, AssignsApp s) ∧
    (Flask.transform hintedApp).toOption = some ⟨"app: Flask = Flask(__name__)", []⟩ := by
  refine ⟨?_, by decide +kernel⟩
  have hruns : ((Module.ofString hintedApp).toOption.any fun m =>
      (edit m).stmts.any fun s => (assigned? s).any fun v => calledName? v ∈ appNames) = true := by decide +kernel
  obtain ⟨m, hm, hruns⟩ := Legacy.exists_ok_of_any hruns
  obtain ⟨s, hs, happ⟩ := List.any_eq_true.1 hruns
  obtain ⟨v, hv, hname⟩ := (Option.any_eq_true _ _).1 happ
  exact ⟨m, hm, s, hs, v, hv, of_decide_eq_true hname⟩

/-- An import that takes a name from a module, under the same local name. -/
def Takes (source : Option String) (level : Nat) (a : Alias) : Stmt → Prop
  | .importFrom _ source' names level' => source' = source ∧ level' = level ∧ a ∈ names
  | _ => False

/-- In the place of an import from the old framework stands at most one statement, whatever stands before and behind it.
The names that are not moved are still imported there just if no moved name has a successor. -/
theorem name_kept_iff {m : Module} {before after : List Stmt} {s : Span} {name : String} {names : List Alias}
    {level : Nat} (hm : m.stmts = before ++ .importFrom s (some name) names level :: after)
    (hflask : isFlaskModule name = true) :
    ∃ put : Option Stmt,
      (edit m).stmts = before.filterMap (Stmt.edit pass) ++ put.toList ++ after.filterMap (Stmt.edit pass) ∧
      ∀ a ∈ names, a.name ∉ movedNames → ((∃ t ∈ put, Takes (some name) level a t) ↔ MovesJsonifyOnly names) := by
  refine ⟨(editImportFrom s (some name) names level).1, ?_, fun a ha hstays => ?_⟩
  · have hhere : Stmt.edit pass (.importFrom s (some name) names level) =
        (editImportFrom s (some name) names level).1 := by rw [Stmt.edit]; rfl
    rw [edit, Module.stmts_edit pass_putsSimple, hm, List.filterMap_append, List.filterMap_cons, hhere]
    cases (editImportFrom s (some name) names level).1 <;> simp
  · have hmem : a ∈ stayingNames names := List.mem_filter.2 ⟨ha, by simpa using hstays⟩
    have hname : name ≠ "fastapi" := fun h => by simp [h, isFlaskModule_fastapi] at hflask
    rw [editImportFrom_of_flask hflask]
    by_cases honly : MovesJsonifyOnly names
    · simp [honly, List.ne_nil_of_mem hmem, Takes, hmem]
    · simp [honly, Takes, hname.symm]

/-- A function that imports something beside `jsonify`. -/
def importing : Stmt :=
  .functionDef .unknown false "f" (.mk [] [] none [] none)
    [.importFrom .unknown (some "Flask_Login") [⟨"jsonify", none⟩, ⟨"login", some "l"⟩] 2] [] none

theorem name_kept_iff_importing :
    ∃ put : Option Stmt, (edit ⟨[importing, importing]⟩).stmts =
        [importing].filterMap (Stmt.edit pass) ++ put.toList ++
          (Module.stmts ⟨[importing]⟩).filterMap (Stmt.edit pass) ∧
      ∃ t ∈ put, Takes (some "Flask_Login") 2 ⟨"login", some "l"⟩ t := by
  have hm : Module.stmts ⟨[importing, importing]⟩ = [importing] ++
      .importFrom .unknown (some "Flask_Login") [⟨"jsonify", none⟩, ⟨"login", some "l"⟩] 2 ::
        Module.stmts ⟨[importing]⟩ := rfl
  obtain ⟨put, hput, hkept⟩ := name_kept_iff hm (by decide +kernel)
  exact ⟨put, hput, (hkept ⟨"login", some "l"⟩ (by decide) (by decide)).2 (by decide)⟩

/-- Beside a name with a successor another name is lost. -/
theorem transform_loses_global :
    (Flask.transform "from flask import Flask, g\n").toOption =
      some ⟨"from fastapi import FastAPI", ["Flask -> FastAPI"]⟩ := by
  decide +kernel

/-- An import of `jsonify` from the old framework, and of nothing else. -/
def Vanishes : Stmt → Prop
  | .importFrom _ (some name) names _ => isFlaskModule name = true ∧ ∀ a ∈ names, a.name = "jsonify"
  | _ => False

theorem edit_eq_none_iff (s : Stmt) : s.edit pass = none ↔ Vanishes s := by
  cases s with
  | importFrom s source names level =>
    rw [Stmt.edit]
    cases source with
    | none => simp [pass, editImportFrom, Vanishes]
    | some name =>
      by_cases hflask : isFlaskModule name = true
      · have hall : MovesJsonifyOnly names ∧ stayingNames names = [] ↔ ∀ a ∈ names, a.name = "jsonify" := by
          rw [stayingNames, List.filter_eq_nil_iff, MovesJsonifyOnly, ← forall₂_and]
          refine forall₂_congr fun a _ => ⟨fun h => h.1 (by simpa using h.2), fun h => by simp [h, movedNames]⟩
        simp only [pass, editImportFrom_of_flask hflask, Vanishes, hflask, ← hall]
        split
        · simp_all
        · split <;> simp_all
      · simp [pass, editImportFrom, Vanishes, hflask]
  | _ => simp [Stmt.edit, Vanishes]

/-- The suites of the edited tree are those of the tree, each with its statements edited, and none of them is empty just
if each of them had a statement that does not vanish. -/
theorem suites_full_iff (m : Module) :
    (edit m).suites = m.suites.map (editStmts pass) ∧
      ((∀ suite ∈ (edit m).suites, suite ≠ []) ↔ ∀ suite ∈ m.suites, ∃ s ∈ suite, ¬Vanishes s) := by
  have hsuites := Module.suites_edit pass_putsSimple m
  refine ⟨hsuites, ?_⟩
  rw [edit, hsuites, List.forall_mem_map]
  refine forall₂_congr fun suite _ => ?_
  rw [editStmts_eq_filterMap, Ne, List.filterMap_eq_nil_iff]
  simp [edit_eq_none_iff]

def importingJsonify : String := "def f():\n    from flask import jsonify\n"

/-- A function is left without a body, and its text ends at the colon. -/
theorem edit_empties_suite :
    (∃ m cs, Module.ofString importingJsonify = .ok m ∧ changes m = .ok cs ∧ (∀ suite ∈ m.suites, suite ≠ []) ∧
      ∃ suite ∈ (edit m).suites, suite = []) ∧
    (Flask.transform importingJsonify).toOption = some ⟨"def f():", ["jsonify removed (not needed)"]⟩ := by
  refine ⟨?_, by decide +kernel⟩
  have hruns : ((Module.ofString importingJsonify).toOption.any fun m => (changes m).toOption.any fun _ =>
      (m.suites.all fun suite => !suite.isEmpty) && (edit m).suites.any List.isEmpty) = true := by decide +kernel
  obtain ⟨m, hm, hruns⟩ := Legacy.exists_ok_of_any hruns
  obtain ⟨cs, hcs, hruns⟩ := Legacy.exists_ok_of_any hruns
  simp only [Bool.and_eq_true, List.all_eq_true, List.any_eq_true, Bool.not_eq_true', List.isEmpty_eq_false_iff,
    List.isEmpty_iff] at hruns
  exact ⟨m, cs, hm, hcs, hruns⟩

end Flask

end CodeMigration
