import CodeMigration.Proofs.LegacyEdits

/-! # What replacing old uses leaves

The frame of a module tells for each statement its kind, the names it binds itself, the names and members in its
expressions and the frames of its blocks. Names that are called are left out: they may be replaced. So may a test for
a key, and then only its key and what is asked are left. Nothing else of a frame changes. -/

namespace CodeMigration

namespace Source

/-- A name, a member or the parameters of a lambda, each with its place. -/
inductive Ident where
  | name (span : Span) (id : String)
  | member (span : Span) (attr : String)
  | byteMember (span : Span) (attr : List Nat)
  | params (span : Span) (names : List String)

def Param.name : Param → String
  | .mk name .. => name

def Params.names : Params → List String
  | .mk positional plain rest keywordOnly keywords =>
    (positional ++ plain ++ rest.toList ++ keywordOnly ++ keywords.toList).map Param.name

mutual

/-- The names that a pattern binds or asks for. -/
def Pattern.names : Pattern → List String
  | .value _ | .singleton _ => []
  | .sequence items | .anyOf items => patternNames items
  | .mapping _ items rest => patternNames items ++ rest.toList
  | .classOf _ items names named => patternNames items ++ names ++ patternNames named
  | .star name | .capture none name => name.toList
  | .capture (some q) name => q.names ++ name.toList

def patternNames : List Pattern → List String
  | [] => []
  | q :: rest => q.names ++ patternNames rest

end

namespace Label

def idents : Label → List Ident
  | .expr (.name s id) => [.name s id]
  | .expr (.member s _ attr) => [.member s attr]
  | .expr (.byteMember s _ attr) => [.byteMember s attr]
  | .expr (.lambda s params _) => [.params s params.names]
  | _ => []

/-- What is left of the names in a callee if it is not counted itself. -/
def called : Label → List Ident → List Ident
  | .expr (.name ..), is | .expr (.member ..), is | .expr (.byteMember ..), is => is.tail
  | _, is => is

end Label

/-- A test for a key that says which key. -/
def testsKey : Expr → List Expr → Bool
  | .member _ _ attr, _ :: _ => attr == "has_key"
  | _, _ => false

variable {func : Expr} {args : List Expr}

theorem exists_of_testsKey (h : testsKey func args = true) :
    ∃ ms value key rest, func = .member ms value "has_key" ∧ args = key :: rest := by
  unfold testsKey at h
  split at h
  · rw [beq_iff_eq] at h
    subst h
    exact ⟨_, _, _, _, rfl, rfl⟩
  · cases h

namespace Outline

mutual

/-- The names in an outline but for those that are called. With `tested`, those of a test for a key are its key's and
then those of what is asked. -/
def idents (tested : Bool) : Outline → List Ident
  | node (.expr (.call _ func args _)) (callee :: parts) =>
    if tested && testsKey func args then firstIdents tested parts ++ callee.label.called (idents tested callee)
    else callee.label.called (idents tested callee) ++ identsOf tested parts
  | node l ps => l.idents ++ identsOf tested ps

def firstIdents (tested : Bool) : List Outline → List Ident
  | [] => []
  | o :: _ => idents tested o

def identsOf (tested : Bool) : List Outline → List Ident
  | [] => []
  | o :: rest => idents tested o ++ identsOf tested rest

end

@[simp] theorem identsOf_append (tested : Bool) (os qs : List Outline) :
    identsOf tested (os ++ qs) = identsOf tested os ++ identsOf tested qs := by
  induction os with
  | nil => rfl
  | cons o os ih => simp [identsOf, ih]

end Outline

inductive Frame where
  | stmt (kind : Nat × Bool) (bound : List String) (idents : List Ident) (blocks : List (List Frame))
  | clause (bound : List String) (idents : List Ident) (block : List Frame)

/-- Which statement it is, asynchronous or not, with stars or not. -/
def Stmt.kind (s : Stmt) : Nat × Bool :=
  (s.ctorIdx, match s with
    | .functionDef _ flag .. | .forLoop _ flag .. | .withBlock _ flag .. | .tryBlock _ flag .. => flag
    | _ => false)

/-- The local name that `import` binds: of a dotted name the first part. -/
def Alias.bound (a : Alias) : String := a.asName.getD (String.ofList (a.name.toList.takeWhile (· != '.')))

section
variable (tested : Bool)

mutual

def Stmt.frame : Stmt → Frame
  | s@(.importModules _ names) => .stmt s.kind (names.map Alias.bound) [] []
  | s@(.importFrom _ _ names _) => .stmt s.kind (names.map fun a => a.asName.getD a.name) [] []
  | s@(.global _ names) | s@(.nonlocal _ names) => .stmt s.kind names [] []
  | s@(.functionDef _ _ name params body decorators returns) =>
    .stmt s.kind (name :: params.names)
      (Outline.identsOf tested (params.outline :: exprOutlines decorators ++ optOutline returns)) [frames body]
  | s@(.classDef _ name bases keywords body decorators) =>
    .stmt s.kind [name]
      (Outline.identsOf tested (exprOutlines bases ++ keywordOutlines keywords ++ exprOutlines decorators)) [frames body]
  | s@(.ifElse _ test body orelse) | s@(.whileLoop _ test body orelse) =>
    .stmt s.kind [] (test.outline.idents tested) [frames body, frames orelse]
  | s@(.forLoop _ _ target iter body orelse) =>
    .stmt s.kind [] (Outline.identsOf tested [target.outline, iter.outline]) [frames body, frames orelse]
  | s@(.withBlock _ _ items body) => .stmt s.kind [] (Outline.identsOf tested (items.map WithItem.outline)) [frames body]
  | s@(.tryBlock _ _ body handlers orelse cleanup) =>
    .stmt s.kind [] [] [frames body, handlerFrames handlers, frames orelse, frames cleanup]
  | s@(.matchCases _ subject cases) => .stmt s.kind [] (subject.outline.idents tested) [caseFrames cases]
  | s => .stmt s.kind [] (s.outline.idents tested) []

def frames : List Stmt → List Frame
  | [] => []
  | s :: rest => s.frame :: frames rest

def handlerFrames : List Handler → List Frame
  | [] => []
  | .mk _ type name body :: rest =>
    .clause name.toList (Outline.identsOf tested (optOutline type)) (frames body) :: handlerFrames rest

def caseFrames : List Case → List Frame
  | [] => []
  | .mk q guard body :: rest =>
    .clause q.names (Outline.identsOf tested (q.outline :: optOutline guard)) (frames body) :: caseFrames rest

end

end

open Outline (idents identsOf firstIdents)
open Legacy (pass editCall)

theorem names_editParams (qs : List Param) : (editParams pass qs).map Param.name = qs.map Param.name := by
  induction qs with
  | nil => rfl
  | cons q qs ih =>
    cases q
    simp [editParams, Param.edit, Param.name, ih]

theorem names_editOptParam (q : Option Param) :
    (editOptParam pass q).toList.map Param.name = q.toList.map Param.name := by
  rcases q with _ | ⟨⟨⟩⟩ <;> rfl

theorem Params.names_edit (qs : Params) : (qs.edit pass).names = qs.names := by
  cases qs
  simp [Params.edit, Params.names, names_editParams, names_editOptParam]

/-- A call that is no test for a key stays a call, with another callee at most. -/
theorem editCall_of_not_test (s : Span) (keywords : List Keyword)
    (h : testsKey func args = false) : ∃ func', (editCall s func args keywords).1 = .call s func' args keywords ∧
      func'.outline.label.called (func'.outline.idents false) =
        func.outline.label.called (func.outline.idents false) := by
  rcases Legacy.editCall_cases s func args keywords with ⟨hcall, -⟩ | ⟨ns, id, new, rfl, -, hcall⟩ |
    ⟨ms, value, attr, new, rfl, -, hcall⟩ | ⟨ms, value, key, rest, rfl, rfl, -⟩
  · exact ⟨_, hcall, rfl⟩
  · exact ⟨_, hcall, rfl⟩
  · exact ⟨_, hcall, rfl⟩
  · cases h

theorem called_editCall (s : Span) (func : Expr) (args : List Expr) (keywords : List Keyword) :
    (∀ is, (Label.expr (editCall s func args keywords).1).called is = is) ∧
      ∀ args', testsKey (editCall s func args keywords).1 args' = false := by
  rcases Legacy.editCall_cases s func args keywords with ⟨h, -⟩ | ⟨_, _, _, -, -, h⟩ | ⟨_, _, _, _, -, -, h⟩ |
    ⟨_, _, _, _, -, -, h⟩
  all_goals
    rw [h]
    exact ⟨fun _ => rfl, fun _ => rfl⟩

theorem called_edit (e : Expr) (is : List Ident) :
    (Label.expr (e.edit pass)).called is = (Label.expr e).called is := by
  cases e with
  | call s func args keywords => exact (called_editCall ..).1 is
  | _ => rfl

theorem testsKey_edit (func : Expr) (args : List Expr) :
    testsKey (func.edit pass) (editExprs pass args) = testsKey func args := by
  cases func with
  | call s func args keywords => exact (called_editCall ..).2 _
  | _ => cases args <;> rfl

section
attribute [local simp] Expr.edit Expr.outline idents identsOf firstIdents Label.idents

theorem idents_editCall {keywords : List Keyword}
    (hfunc : (func.edit pass).outline.idents false = func.outline.idents true)
    (hargs : identsOf false (exprOutlines (editExprs pass args)) = identsOf true (exprOutlines args) ∧
      firstIdents false (exprOutlines (editExprs pass args)) = firstIdents true (exprOutlines args))
    (hkeywords : identsOf false (keywordOutlines (editKeywords pass keywords)) =
      identsOf true (keywordOutlines keywords)) (s : Span) :
    ((Expr.call s func args keywords).edit pass).outline.idents false =
      (Expr.call s func args keywords).outline.idents true := by
  by_cases htest : testsKey func args = true
  · obtain ⟨ms, value, key, rest, rfl, rfl⟩ := exists_of_testsKey htest
    have hedit : (Expr.call s (.member ms value "has_key") (key :: rest) keywords).edit pass =
        .compare .unknown (key.edit pass) [.inside] [value.edit pass] := rfl
    simp [editExprs, exprOutlines] at hfunc hargs
    rw [hedit]
    simp [htest, exprOutlines, Outline.label, Label.called, hfunc, hargs]
  · rw [Bool.not_eq_true] at htest
    obtain ⟨func', hcall, hcallee⟩ := editCall_of_not_test s (editKeywords pass keywords)
      ((testsKey_edit func args).trans htest)
    have hedit : (Expr.call s func args keywords).edit pass =
        .call s func' (editExprs pass args) (editKeywords pass keywords) := hcall
    rw [Expr.outline_label (func.edit pass), called_edit, hfunc, ← Expr.outline_label] at hcallee
    rw [hedit]
    simp [htest, hcallee, hargs, hkeywords]

mutual

theorem Expr.idents_edit (e : Expr) : (e.edit pass).outline.idents false = e.outline.idents true := by
  cases e with
  | call s func args keywords =>
    exact idents_editCall func.idents_edit (identsOf_editExprs args) (identsOf_editKeywords keywords) s
  | _ =>
    simp [Params.names_edit, Expr.idents_edit, identsOf_editExprs, identsOf_editOpt, identsOf_editItems,
      identsOf_editClauses, Params.idents_edit]

theorem identsOf_editExprs (es : List Expr) :
    identsOf false (exprOutlines (editExprs pass es)) = identsOf true (exprOutlines es) ∧
      firstIdents false (exprOutlines (editExprs pass es)) = firstIdents true (exprOutlines es) := by
  cases es <;> simp [editExprs, exprOutlines, Expr.idents_edit, identsOf_editExprs]

theorem identsOf_editOpt (e : Option Expr) :
    identsOf false (optOutline (editOpt pass e)) = identsOf true (optOutline e) := by
  cases e <;> simp [editOpt, optOutline, Expr.idents_edit]

theorem identsOf_editKeywords (ks : List Keyword) :
    identsOf false (keywordOutlines (editKeywords pass ks)) = identsOf true (keywordOutlines ks) := by
  rcases ks with _ | ⟨⟨⟩, ks⟩ <;> simp [editKeywords, keywordOutlines, Expr.idents_edit, identsOf_editKeywords]

theorem identsOf_editItems (items : List DictItem) :
    identsOf false (keyOutlines (editItems pass items)) = identsOf true (keyOutlines items) ∧
      identsOf false (valueOutlines (editItems pass items)) = identsOf true (valueOutlines items) := by
  rcases items with _ | ⟨⟨⟩, items⟩ <;>
    simp [editItems, keyOutlines, valueOutlines, Expr.idents_edit, identsOf_editItems]

theorem identsOf_editClauses (cs : List Clause) :
    identsOf false (clauseOutlines (editClauses pass cs)) = identsOf true (clauseOutlines cs) := by
  rcases cs with _ | ⟨⟨⟩, cs⟩ <;>
    simp [editClauses, clauseOutlines, Expr.idents_edit, identsOf_editExprs, identsOf_editClauses]

theorem identsOf_editParams (qs : List Param) :
    identsOf false (paramOutlines (editParams pass qs)) = identsOf true (paramOutlines qs) ∧
      identsOf false (defaultOutlines (editParams pass qs)) = identsOf true (defaultOutlines qs) := by
  rcases qs with _ | ⟨⟨⟩, qs⟩ <;> simp [editParams, Param.edit, paramOutlines, defaultOutlines, Param.outline,
    Param.defaultOutline, identsOf_editOpt, identsOf_editParams]

theorem identsOf_editOptParam (q : Option Param) :
    identsOf false (optParamOutline (editOptParam pass q)) = identsOf true (optParamOutline q) := by
  rcases q with _ | ⟨⟨⟩⟩ <;> simp [editOptParam, optParamOutline, Param.outline, identsOf_editOpt]

theorem Params.idents_edit (qs : Params) : (qs.edit pass).outline.idents false = qs.outline.idents true := by
  cases qs
  simp [Params.edit, Params.outline, identsOf_editParams, identsOf_editOptParam]

end

end

attribute [local simp] idents identsOf Label.idents Expr.idents_edit identsOf_editExprs identsOf_editOpt
  identsOf_editKeywords Params.idents_edit

section
attribute [local simp] Pattern.edit Pattern.outline Pattern.names

mutual

theorem Pattern.idents_edit (q : Pattern) :
    (q.edit pass).outline.idents false = q.outline.idents true ∧ (q.edit pass).names = q.names := by
  cases q with
  | capture q name => cases q <;> simp [editOptPattern, optPatternOutline, Pattern.idents_edit]
  | _ => simp [identsOf_editPatterns]

theorem identsOf_editPatterns (qs : List Pattern) :
    identsOf false (patternOutlines (editPatterns pass qs)) = identsOf true (patternOutlines qs) ∧
      patternNames (editPatterns pass qs) = patternNames qs := by
  cases qs <;> simp [editPatterns, patternOutlines, patternNames, Pattern.idents_edit, identsOf_editPatterns]

end

end

theorem identsOf_editWithItems (items : List WithItem) :
    identsOf false (items.map (WithItem.outline ∘ WithItem.edit pass)) = identsOf true (items.map WithItem.outline) := by
  induction items with
  | nil => rfl
  | cons item items ih => simp [ih, WithItem.outline, WithItem.edit]

theorem bound_editAlias (a : Alias) : (Legacy.editAlias a).bound = a.bound := by
  unfold Legacy.editAlias
  split
  case h_2 => rfl
  case h_1 new hnew =>
    unfold Legacy.renamedModule? at hnew
    split at hnew <;> simp_all [Alias.bound]

attribute [local simp] Stmt.edit Stmt.outline Stmt.frame Stmt.kind Stmt.ctorIdx identsOf_editWithItems
  Pattern.idents_edit replaceDecorators_eq Legacy.pass_sparesDecorators Params.names_edit

mutual

theorem Stmt.frame_edit (s : Stmt) : ∃ s', s.edit pass = some s' ∧ s'.frame false = s.frame true := by
  cases s with
  | importModules s names => simp [Legacy.pass, Legacy.editImport, bound_editAlias, Function.comp_def]
  | importFrom s source names level =>
    simp only [Stmt.edit, Legacy.pass, Legacy.editImportFrom]
    split <;> simp
  | assign s targets value => exact ⟨.assign s (editExprs pass targets) (value.edit pass), rfl, by simp⟩
  | _ => simp [frames_editStmts, handlerFrames_edit, caseFrames_edit]

theorem frames_editStmts (ss : List Stmt) : frames false (editStmts pass ss) = frames true ss := by
  cases ss with
  | nil => rfl
  | cons s ss =>
    obtain ⟨s', hedit, hframe⟩ := s.frame_edit
    simp [editStmts, hedit, frames, hframe, frames_editStmts ss]

theorem handlerFrames_edit (hs : List Handler) : handlerFrames false (editHandlers pass hs) = handlerFrames true hs := by
  rcases hs with _ | ⟨⟨⟩, hs⟩ <;> simp [editHandlers, handlerFrames, frames_editStmts, handlerFrames_edit]

theorem caseFrames_edit (cs : List Case) : caseFrames false (editCases pass cs) = caseFrames true cs := by
  rcases cs with _ | ⟨⟨⟩, cs⟩ <;> simp [editCases, caseFrames, frames_editStmts, caseFrames_edit]

end

end Source

/-- Replacing old uses leaves the frame of a module: the same statements in the same order and blocks, the same names
bound by definitions, parameters, imports and patterns, and in expressions the same names and members in the same
places, but for those that are called. Of a test for a key that is replaced, its key and what is asked are left. -/
theorem Legacy.edit_keeps_frame (m : Source.Module) : Source.frames false (edit m).body = Source.frames true m.body :=
  Source.frames_editStmts m.body

end CodeMigration
