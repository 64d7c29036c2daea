import CodeMigration.Source.Outline

/-! # Editing a tree

A pass says what becomes of a few kinds of nodes, and what is to be noted about it. The parts of a
node are edited before the node itself; only the decorators of a function are replaced first, and
their parts edited afterwards. -/

namespace CodeMigration.Source

structure Pass (ε : Type) where
  /-- A call whose parts are edited. -/
  call : Span → Expr → List Expr → List Keyword → Expr × List ε := fun s f as ks => (.call s f as ks, [])
  /-- A decorator of a plain function. -/
  decorator : Expr → Expr × List ε := fun e => (e, [])
  /-- An assignment whose parts are edited. -/
  assign : Span → List Expr → Expr → Stmt × List ε := fun s ts e => (.assign s ts e, [])
  importModules : Span → List Alias → Stmt × List ε := fun s names => (.importModules s names, [])
  /-- An import of names may vanish. -/
  importFrom : Span → Option String → List Alias → Nat → Option Stmt × List ε :=
    fun s source names level => (some (.importFrom s source names level), [])

variable {ε : Type} (p : Pass ε)

mutual

def Expr.edit : Expr → Expr
  | .name s id => .name s id
  | .literal s value => .literal s value
  | .member s value attr => .member s value.edit attr
  | .byteMember s value attr => .byteMember s value.edit attr
  | .subscript s value index => .subscript s value.edit index.edit
  | .slice s lower upper step => .slice s (editOpt lower) (editOpt upper) (editOpt step)
  | .starred s value => .starred s value.edit
  | .call s func args keywords =>
    (p.call s func.edit (editExprs args) (editKeywords keywords)).1
  | .unary s op operand => .unary s op operand.edit
  | .binary s op left right => .binary s op left.edit right.edit
  | .logical s op values => .logical s op (editExprs values)
  | .compare s left ops rights => .compare s left.edit ops (editExprs rights)
  | .conditional s test body orelse => .conditional s test.edit body.edit orelse.edit
  | .lambda s params body => .lambda s params.edit body.edit
  | .walrus s target value => .walrus s target.edit value.edit
  | .await s value => .await s value.edit
  | .yield s value => .yield s (editOpt value)
  | .yieldFrom s value => .yieldFrom s value.edit
  | .display s kind items => .display s kind (editExprs items)
  | .dict s items => .dict s (editItems items)
  | .comprehension s kind element clauses =>
    .comprehension s kind element.edit (editClauses clauses)
  | .dictComprehension s key value clauses =>
    .dictComprehension s key.edit value.edit (editClauses clauses)
  | .fstring s parts => .fstring s (editExprs parts)
  | .formatted s value conversion spec => .formatted s value.edit conversion (editOpt spec)

def editExprs : List Expr → List Expr
  | [] => []
  | e :: rest => e.edit :: editExprs rest

def editOpt : Option Expr → Option Expr
  | none => none
  | some e => some e.edit

def editKeywords : List Keyword → List Keyword
  | [] => []
  | .mk name value :: rest => .mk name value.edit :: editKeywords rest

def editItems : List DictItem → List DictItem
  | [] => []
  | .pair key value :: rest => .pair key.edit value.edit :: editItems rest
  | .spread value :: rest => .spread value.edit :: editItems rest

def editClauses : List Clause → List Clause
  | [] => []
  | .mk async target iter conditions :: rest =>
    .mk async target.edit iter.edit (editExprs conditions) :: editClauses rest

def Param.edit : Param → Param
  | .mk name hint default => .mk name (editOpt hint) (editOpt default)

def editParams : List Param → List Param
  | [] => []
  | q :: rest => q.edit :: editParams rest

/-- A parameter for all that is left over has no default. -/
def editOptParam : Option Param → Option Param
  | none => none
  | some (.mk name hint default) => some (.mk name (editOpt hint) default)

def Params.edit : Params → Params
  | .mk positional plain rest keywordOnly keywords =>
    .mk (editParams positional) (editParams plain) (editOptParam rest) (editParams keywordOnly)
      (editOptParam keywords)

end

mutual

def Pattern.edit : Pattern → Pattern
  | .value e => .value (e.edit p)
  | .singleton value => .singleton value
  | .sequence items => .sequence (editPatterns items)
  | .mapping keys items rest => .mapping (editExprs p keys) (editPatterns items) rest
  | .classOf cls items names named =>
    .classOf (cls.edit p) (editPatterns items) names (editPatterns named)
  | .star name => .star name
  | .capture q name => .capture (editOptPattern q) name
  | .anyOf choices => .anyOf (editPatterns choices)

def editPatterns : List Pattern → List Pattern
  | [] => []
  | q :: rest => q.edit :: editPatterns rest

def editOptPattern : Option Pattern → Option Pattern
  | none => none
  | some q => some q.edit

end

def WithItem.edit (item : WithItem) : WithItem := ⟨item.context.edit p, editOpt p item.target⟩

def replaceDecorators (async : Bool) (decorators : List Expr) : List Expr :=
  if async then decorators else decorators.map fun e => (p.decorator e).1

mutual

/-- The statement in place of another, if it does not vanish. -/
def Stmt.edit : Stmt → Option Stmt
  | .expr s value => some (.expr s (value.edit p))
  | .assign s targets value => some (p.assign s (editExprs p targets) (value.edit p)).1
  | .augAssign s target op value => some (.augAssign s (target.edit p) op (value.edit p))
  | .annAssign s target hint value simple =>
    some (.annAssign s (target.edit p) (hint.edit p) (editOpt p value) simple)
  | .ret s value => some (.ret s (editOpt p value))
  | .delete s targets => some (.delete s (editExprs p targets))
  | .assert s test message => some (.assert s (test.edit p) (editOpt p message))
  | .raise s exc cause => some (.raise s (editOpt p exc) (editOpt p cause))
  | .pass s => some (.pass s)
  | .breakLoop s => some (.breakLoop s)
  | .continueLoop s => some (.continueLoop s)
  | .global s names => some (.global s names)
  | .nonlocal s names => some (.nonlocal s names)
  | .importModules s names => some (p.importModules s names).1
  | .importFrom s source names level => (p.importFrom s source names level).1
  | .functionDef s async name params body decorators returns =>
    some (.functionDef s async name (params.edit p) (editStmts body)
      (editExprs p (replaceDecorators p async decorators)) (editOpt p returns))
  | .classDef s name bases keywords body decorators =>
    some (.classDef s name (editExprs p bases) (editKeywords p keywords) (editStmts body)
      (editExprs p decorators))
  | .ifElse s test body orelse => some (.ifElse s (test.edit p) (editStmts body) (editStmts orelse))
  | .whileLoop s test body orelse =>
    some (.whileLoop s (test.edit p) (editStmts body) (editStmts orelse))
  | .forLoop s async target iter body orelse =>
    some (.forLoop s async (target.edit p) (iter.edit p) (editStmts body) (editStmts orelse))
  | .withBlock s async items body =>
    some (.withBlock s async (items.map (WithItem.edit p)) (editStmts body))
  | .tryBlock s star body handlers orelse cleanup =>
    some (.tryBlock s star (editStmts body) (editHandlers handlers) (editStmts orelse)
      (editStmts cleanup))
  | .matchCases s subject cases => some (.matchCases s (subject.edit p) (editCases cases))

def editStmts : List Stmt → List Stmt
  | [] => []
  | s :: rest =>
    match s.edit with
    | some s => s :: editStmts rest
    | none => editStmts rest

def editHandlers : List Handler → List Handler
  | [] => []
  | .mk s type name body :: rest =>
    .mk s (editOpt p type) name (editStmts body) :: editHandlers rest

def editCases : List Case → List Case
  | [] => []
  | .mk q guard body :: rest =>
    .mk (q.edit p) (editOpt p guard) (editStmts body) :: editCases rest

end

def Module.edit (m : Module) : Module := ⟨editStmts p m.body⟩

/-- What is noted about a node itself, once the parts of the node are edited. -/
def Pass.notesAt : Label → List ε
  | .expr (.call s func args keywords) => (p.call s (func.edit p) (editExprs p args) (editKeywords p keywords)).2
  | .stmt (.assign s targets value) => (p.assign s (editExprs p targets) (value.edit p)).2
  | .stmt (.importModules s names) => (p.importModules s names).2
  | .stmt (.importFrom s source names level) => (p.importFrom s source names level).2
  | _ => []

def notesOf (os : List Outline) : List ε := Outline.gathers p.notesAt os

def decoratorNotes (async : Bool) (decorators : List Expr) : List ε :=
  if async then [] else decorators.flatMap fun e => (p.decorator e).2

mutual

def Stmt.notes : Stmt → List ε
  | .functionDef _ async _ params body decorators returns =>
    decoratorNotes p async decorators ++ notesOf p [params.outline] ++ notesStmts body ++
      notesOf p (exprOutlines (replaceDecorators p async decorators) ++ optOutline returns)
  | .classDef _ _ bases keywords body decorators =>
    notesOf p (exprOutlines bases ++ keywordOutlines keywords) ++ notesStmts body ++ notesOf p (exprOutlines decorators)
  | .ifElse _ test body orelse | .whileLoop _ test body orelse =>
    notesOf p [test.outline] ++ notesStmts body ++ notesStmts orelse
  | .forLoop _ _ target iter body orelse =>
    notesOf p [target.outline, iter.outline] ++ notesStmts body ++ notesStmts orelse
  | .withBlock _ _ items body => notesOf p (items.map WithItem.outline) ++ notesStmts body
  | .tryBlock _ _ body handlers orelse cleanup =>
    notesStmts body ++ notesHandlers handlers ++ notesStmts orelse ++ notesStmts cleanup
  | .matchCases _ subject cases => notesOf p [subject.outline] ++ notesCases cases
  | s => notesOf p [s.outline]

def notesStmts : List Stmt → List ε
  | [] => []
  | s :: rest => s.notes ++ notesStmts rest

def notesHandlers : List Handler → List ε
  | [] => []
  | .mk _ type _ body :: rest => notesOf p (optOutline type) ++ notesStmts body ++ notesHandlers rest

def notesCases : List Case → List ε
  | [] => []
  | .mk q guard body :: rest => notesOf p (q.outline :: optOutline guard) ++ notesStmts body ++ notesCases rest

end

def Module.notes (m : Module) : List ε := notesStmts p m.body

end CodeMigration.Source
