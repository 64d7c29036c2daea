import CodeMigration.Source.Tree

/-! # Outlines

A module as a tree of labelled nodes whose parts stand in a fixed order: that of the parts in a
node's definition, not always that of the text. It gives the three orders in which nodes are visited. -/

namespace CodeMigration.Source

/-- What a node of an outline is. `inner` stands for nodes that only hold others. -/
inductive Label where
  | expr (e : Expr)
  | stmt (s : Stmt)
  | handler (span : Span) (name : Option String)
  | inner

inductive Outline where
  | node (label : Label) (parts : List Outline)

namespace Outline

def label : Outline → Label
  | node l _ => l

def parts : Outline → List Outline
  | node _ ps => ps

mutual

def preorder : Outline → List Outline
  | node l ps => node l ps :: preorders ps

def preorders : List Outline → List Outline
  | [] => []
  | o :: rest => preorder o ++ preorders rest

end

def joinLevels {α : Type} : List (List α) → List (List α) → List (List α)
  | [], ys => ys
  | xs, [] => xs
  | x :: xs, y :: ys => (x ++ y) :: joinLevels xs ys

mutual

def levels : Outline → List (List Label)
  | node l ps => [l] :: levelsOf ps

def levelsOf : List Outline → List (List Label)
  | [] => []
  | o :: rest => joinLevels (levels o) (levelsOf rest)

end

def breadthFirst (o : Outline) : List Label := o.levels.flatten

mutual

/-- What is said of the nodes of an outline, each node behind its parts. -/
def gather {α : Type} (f : Label → List α) : Outline → List α
  | node l ps => gathers f ps ++ f l

def gathers {α : Type} (f : Label → List α) : List Outline → List α
  | [] => []
  | o :: rest => gather f o ++ gathers f rest

end

end Outline

open Outline (node)

mutual

def Expr.outline : Expr → Outline
  | .name s id => node (.expr (.name s id)) []
  | .literal s value => node (.expr (.literal s value)) []
  | .member s value attr => node (.expr (.member s value attr)) [value.outline]
  | .byteMember s value attr => node (.expr (.byteMember s value attr)) [value.outline]
  | .subscript s value index => node (.expr (.subscript s value index)) [value.outline, index.outline]
  | .slice s lower upper step =>
    node (.expr (.slice s lower upper step)) (optOutline lower ++ optOutline upper ++ optOutline step)
  | .starred s value => node (.expr (.starred s value)) [value.outline]
  | .call s func args keywords =>
    node (.expr (.call s func args keywords)) (func.outline :: exprOutlines args ++ keywordOutlines keywords)
  | .unary s op operand => node (.expr (.unary s op operand)) [operand.outline]
  | .binary s op left right => node (.expr (.binary s op left right)) [left.outline, right.outline]
  | .logical s op values => node (.expr (.logical s op values)) (exprOutlines values)
  | .compare s left ops rights =>
    node (.expr (.compare s left ops rights)) (left.outline :: exprOutlines rights)
  | .conditional s test body orelse =>
    node (.expr (.conditional s test body orelse)) [test.outline, body.outline, orelse.outline]
  | .lambda s params body => node (.expr (.lambda s params body)) [params.outline, body.outline]
  | .walrus s target value => node (.expr (.walrus s target value)) [target.outline, value.outline]
  | .await s value => node (.expr (.await s value)) [value.outline]
  | .yield s value => node (.expr (.yield s value)) (optOutline value)
  | .yieldFrom s value => node (.expr (.yieldFrom s value)) [value.outline]
  | .display s kind items => node (.expr (.display s kind items)) (exprOutlines items)
  | .dict s items => node (.expr (.dict s items)) (keyOutlines items ++ valueOutlines items)
  | .comprehension s kind element clauses =>
    node (.expr (.comprehension s kind element clauses)) (element.outline :: clauseOutlines clauses)
  | .dictComprehension s key value clauses =>
    node (.expr (.dictComprehension s key value clauses))
      (key.outline :: value.outline :: clauseOutlines clauses)
  | .fstring s parts => node (.expr (.fstring s parts)) (exprOutlines parts)
  | .formatted s value conversion spec =>
    node (.expr (.formatted s value conversion spec)) (value.outline :: optOutline spec)

def exprOutlines : List Expr → List Outline
  | [] => []
  | e :: rest => e.outline :: exprOutlines rest

def optOutline : Option Expr → List Outline
  | none => []
  | some e => [e.outline]

def keywordOutlines : List Keyword → List Outline
  | [] => []
  | .mk _ value :: rest => node .inner [value.outline] :: keywordOutlines rest

def keyOutlines : List DictItem → List Outline
  | [] => []
  | .pair key _ :: rest => key.outline :: keyOutlines rest
  | .spread _ :: rest => keyOutlines rest

def valueOutlines : List DictItem → List Outline
  | [] => []
  | .pair _ value :: rest => value.outline :: valueOutlines rest
  | .spread value :: rest => value.outline :: valueOutlines rest

def clauseOutlines : List Clause → List Outline
  | [] => []
  | .mk _ target iter conditions :: rest =>
    node .inner (target.outline :: iter.outline :: exprOutlines conditions) :: clauseOutlines rest

def Param.outline : Param → Outline
  | .mk _ hint _ => node .inner (optOutline hint)

def Param.defaultOutline : Param → List Outline
  | .mk _ _ default => optOutline default

def paramOutlines : List Param → List Outline
  | [] => []
  | p :: rest => p.outline :: paramOutlines rest

def defaultOutlines : List Param → List Outline
  | [] => []
  | p :: rest => p.defaultOutline ++ defaultOutlines rest

def optParamOutline : Option Param → List Outline
  | none => []
  | some p => [p.outline]

def Params.outline : Params → Outline
  | .mk positional plain rest keywordOnly keywords =>
    node .inner (paramOutlines positional ++ paramOutlines plain ++ optParamOutline rest ++
      paramOutlines keywordOnly ++ defaultOutlines keywordOnly ++ optParamOutline keywords ++
      defaultOutlines positional ++ defaultOutlines plain)

end

mutual

def Pattern.outline : Pattern → Outline
  | .value e => node .inner [e.outline]
  | .singleton _ => node .inner []
  | .sequence items => node .inner (patternOutlines items)
  | .mapping keys items _ => node .inner (exprOutlines keys ++ patternOutlines items)
  | .classOf cls items _ named =>
    node .inner (cls.outline :: patternOutlines items ++ patternOutlines named)
  | .star _ => node .inner []
  | .capture p _ => node .inner (optPatternOutline p)
  | .anyOf choices => node .inner (patternOutlines choices)

def patternOutlines : List Pattern → List Outline
  | [] => []
  | p :: rest => p.outline :: patternOutlines rest

def optPatternOutline : Option Pattern → List Outline
  | none => []
  | some p => [p.outline]

end

def WithItem.outline (item : WithItem) : Outline :=
  node .inner (item.context.outline :: optOutline item.target)

mutual

def Stmt.outline : Stmt → Outline
  | .expr s value => node (.stmt (.expr s value)) [value.outline]
  | .assign s targets value =>
    node (.stmt (.assign s targets value)) (exprOutlines targets ++ [value.outline])
  | .augAssign s target op value =>
    node (.stmt (.augAssign s target op value)) [target.outline, value.outline]
  | .annAssign s target hint value simple =>
    node (.stmt (.annAssign s target hint value simple))
      (target.outline :: hint.outline :: optOutline value)
  | .ret s value => node (.stmt (.ret s value)) (optOutline value)
  | .delete s targets => node (.stmt (.delete s targets)) (exprOutlines targets)
  | .assert s test message => node (.stmt (.assert s test message)) (test.outline :: optOutline message)
  | .raise s exc cause => node (.stmt (.raise s exc cause)) (optOutline exc ++ optOutline cause)
  | .pass s => node (.stmt (.pass s)) []
  | .breakLoop s => node (.stmt (.breakLoop s)) []
  | .continueLoop s => node (.stmt (.continueLoop s)) []
  | .global s names => node (.stmt (.global s names)) []
  | .nonlocal s names => node (.stmt (.nonlocal s names)) []
  | .importModules s names => node (.stmt (.importModules s names)) []
  | .importFrom s source names level => node (.stmt (.importFrom s source names level)) []
  | .functionDef s async name params body decorators returns =>
    node (.stmt (.functionDef s async name params body decorators returns))
      (params.outline :: stmtOutlines body ++ exprOutlines decorators ++ optOutline returns)
  | .classDef s name bases keywords body decorators =>
    node (.stmt (.classDef s name bases keywords body decorators))
      (exprOutlines bases ++ keywordOutlines keywords ++ stmtOutlines body ++ exprOutlines decorators)
  | .ifElse s test body orelse =>
    node (.stmt (.ifElse s test body orelse)) (test.outline :: stmtOutlines body ++ stmtOutlines orelse)
  | .whileLoop s test body orelse =>
    node (.stmt (.whileLoop s test body orelse)) (test.outline :: stmtOutlines body ++ stmtOutlines orelse)
  | .forLoop s async target iter body orelse =>
    node (.stmt (.forLoop s async target iter body orelse))
      (target.outline :: iter.outline :: stmtOutlines body ++ stmtOutlines orelse)
  | .withBlock s async items body =>
    node (.stmt (.withBlock s async items body)) (items.map WithItem.outline ++ stmtOutlines body)
  | .tryBlock s star body handlers orelse cleanup =>
    node (.stmt (.tryBlock s star body handlers orelse cleanup))
      (stmtOutlines body ++ handlerOutlines handlers ++ stmtOutlines orelse ++ stmtOutlines cleanup)
  | .matchCases s subject cases =>
    node (.stmt (.matchCases s subject cases)) (subject.outline :: caseOutlines cases)

def stmtOutlines : List Stmt → List Outline
  | [] => []
  | s :: rest => s.outline :: stmtOutlines rest

def handlerOutlines : List Handler → List Outline
  | [] => []
  | .mk s type name body :: rest =>
    node (.handler s name) (optOutline type ++ stmtOutlines body) :: handlerOutlines rest

def caseOutlines : List Case → List Outline
  | [] => []
  | .mk p guard body :: rest =>
    node .inner (p.outline :: optOutline guard ++ stmtOutlines body) :: caseOutlines rest

end

def Module.outline (m : Module) : Outline := node .inner (stmtOutlines m.body)

end CodeMigration.Source
