import CodeMigration.Source.Grammar.Parse

/-! # The constructs of the grammar -/

namespace CodeMigration.Source

namespace Expr

def span : Expr → Span
  | name s .. | literal s .. | member s .. | byteMember s .. | subscript s .. | slice s .. | starred s ..
  | call s .. | unary s .. | binary s .. | logical s .. | compare s .. | conditional s .. | lambda s ..
  | walrus s .. | await s .. | yield s .. | yieldFrom s .. | display s .. | dict s .. | comprehension s ..
  | dictComprehension s .. | fstring s .. | formatted s .. => s

def describe : Expr → String
  | name .. => "name"
  | literal _ .null => "None"
  | literal _ (.bool true) => "True"
  | literal _ (.bool false) => "False"
  | literal _ .ellipsis => "ellipsis"
  | literal .. => "literal"
  | member .. | byteMember .. => "attribute"
  | subscript .. => "subscript"
  | slice .. => "slice"
  | starred .. => "starred"
  | call .. => "function call"
  | unary .. | binary .. | logical .. => "expression"
  | compare .. => "comparison"
  | conditional .. => "conditional expression"
  | lambda .. => "lambda"
  | walrus .. => "named expression"
  | await .. => "await expression"
  | yield .. | yieldFrom .. => "yield expression"
  | display _ .list _ => "list"
  | display _ .tuple _ => "tuple"
  | display _ .set _ => "set display"
  | dict .. => "dict literal"
  | comprehension _ .list .. => "list comprehension"
  | comprehension _ .set .. => "set comprehension"
  | comprehension _ .generator .. => "generator expression"
  | dictComprehension .. => "dict comprehension"
  | fstring .. | formatted .. => "f-string expression"

end Expr

namespace Grammar

inductive TargetUse where
  | assign | loop | delete
  deriving DecidableEq

mutual

/-- The first part of an expression that is no target. -/
def badTarget? (use : TargetUse) : Expr → Option Expr
  | .display _ .list items | .display _ .tuple items => badTargetAmong? use items
  | .starred s value => if use = .delete then some (.starred s value) else badTarget? use value
  | .compare s left ops rights =>
    if use = .loop then
      if ops.head? = some .inside then badTarget? use left else none
    else some (.compare s left ops rights)
  | .name .. | .subscript .. | .member .. => none
  | e => some e

def badTargetAmong? (use : TargetUse) : List Expr → Option Expr
  | [] => none
  | e :: rest => (badTarget? use e).or (badTargetAmong? use rest)

end

inductive Rule : Phrase → Type where
  | expression : Rule .expr
  | plainExpression : Rule .expr
  | expressions : Rule .expr
  | starExpressions : Rule .expr
  | starExpression : Rule .expr
  | starNamed : Rule .expr
  | starNameds : Rule .exprs
  | assignmentExpression : Rule .expr
  | namedExpression : Rule .expr
  | badNamed : Rule .expr
  | disjunction : Rule .expr
  | conjunction : Rule .expr
  | inversion : Rule .expr
  | comparison : Rule .expr
  | bitwiseOr : Rule .expr
  | bitwiseXor : Rule .expr
  | bitwiseAnd : Rule .expr
  | shift : Rule .expr
  | sum : Rule .expr
  | term : Rule .expr
  | factor : Rule .expr
  | power : Rule .expr
  | awaitPrimary : Rule .expr
  | primary : Rule .expr
  | slices : Rule .expr
  | atom : Rule .expr
  | strings : Rule .expr
  | list : Rule .expr
  | tuple : Rule .expr
  | generator : Rule .expr
  | lambda : Rule .expr
  | yieldExpr : Rule .expr
  | starredExpression : Rule .expr
  | clauses : Rule .clauses
  | arguments : Rule .args
  | args : Rule .args
  | params : Rule .params
  | lambdaParams : Rule .params
  | starTargets : Rule .expr
  | starTarget : Rule .expr
  | starTargetAtom : Rule .expr
  | singleTarget : Rule .expr
  | singleSubscript : Rule .expr
  | targetPrimary : Rule .expr
  | delTarget : Rule .expr
  | delTargets : Rule .exprs
  | annotatedBad : Rule .expr
  | block : Rule .stmts
  | statements : Rule .stmts
  | simpleStmts : Rule .stmts
  | simpleStmt : Rule .stmt
  | elifStmt : Rule .stmt
  | elseBlock : Rule .stmts
  | patterns : Rule .pattern
  | pattern : Rule .pattern
  | orPattern : Rule .pattern
  | closedPattern : Rule .pattern
  | maybeSequence : Rule .patterns
  | openSequence : Rule .patterns
  | positionalPatterns : Rule .patterns

namespace Rule

def number {s : Phrase} : Rule s → Nat
  | expression => 0
  | plainExpression => 1
  | expressions => 2
  | starExpressions => 3
  | starExpression => 4
  | starNamed => 5
  | starNameds => 6
  | assignmentExpression => 7
  | namedExpression => 8
  | badNamed => 9
  | disjunction => 10
  | conjunction => 11
  | inversion => 12
  | comparison => 13
  | bitwiseOr => 14
  | bitwiseXor => 15
  | bitwiseAnd => 16
  | shift => 17
  | sum => 18
  | term => 19
  | factor => 20
  | power => 21
  | awaitPrimary => 22
  | primary => 23
  | slices => 24
  | atom => 25
  | strings => 26
  | list => 27
  | tuple => 28
  | generator => 29
  | lambda => 30
  | yieldExpr => 31
  | starredExpression => 32
  | clauses => 33
  | arguments => 34
  | args => 35
  | params => 36
  | lambdaParams => 37
  | starTargets => 38
  | starTarget => 39
  | starTargetAtom => 40
  | singleTarget => 41
  | singleSubscript => 42
  | targetPrimary => 43
  | delTarget => 44
  | delTargets => 45
  | annotatedBad => 46
  | block => 47
  | statements => 48
  | simpleStmts => 49
  | simpleStmt => 50
  | elifStmt => 51
  | elseBlock => 52
  | patterns => 53
  | pattern => 54
  | orPattern => 55
  | closedPattern => 56
  | maybeSequence => 57
  | openSequence => 58
  | positionalPatterns => 59

/-- The constructs that are tried once at each token. What is found without explanations is used
with them too. -/
def isMemoized {s : Phrase} : Rule s → Bool
  | expression | starExpression | badNamed | disjunction | conjunction | inversion | bitwiseOr | bitwiseXor
  | bitwiseAnd | shift | sum | term | factor | awaitPrimary | primary | strings | arguments | starTarget
  | starTargetAtom | targetPrimary | delTarget | block | simpleStmt | closedPattern => true
  | _ => false

end Rule

/-- How a construct is read where another one needs it. -/
abbrev Go : Type := {s : Phrase} → Rule s → Parse s.Value

end Grammar

end CodeMigration.Source
