import CodeMigration.Source.Grammar.Statement

/-! # Reading a module

The constructs of the grammar need each other; here the knot is tied, with a bound on how deep one
construct stands inside another that no text reaches. -/

namespace CodeMigration.Source

namespace Grammar

/-- How each construct is read, in terms of how all are. -/
def body (go : Go) {s : Phrase} : Rule s → Parse s.Value
  | .expression => expression go
  | .plainExpression => plainExpression go
  | .expressions => expressions go
  | .starExpressions => starExpressions go
  | .starExpression => starExpression go
  | .starNamed => starNamed go
  | .starNameds => starNameds go
  | .assignmentExpression => assignmentExpression go
  | .namedExpression => namedExpression go
  | .badNamed => badNamed go
  | .disjunction => disjunction go
  | .conjunction => conjunction go
  | .inversion => inversion go
  | .comparison => comparison go
  | .bitwiseOr => bitwiseOr go
  | .bitwiseXor => bitwiseXor go
  | .bitwiseAnd => bitwiseAnd go
  | .shift => shift go
  | .sum => sum go
  | .term => term go
  | .factor => factor go
  | .power => power go
  | .awaitPrimary => awaitPrimary go
  | .primary => primary go
  | .slices => slices go
  | .atom => atom go
  | .strings => strings go
  | .list => list go
  | .tuple => tuple go
  | .generator => generator go
  | .lambda => lambda go
  | .yieldExpr => yieldExpr go
  | .starredExpression => starredExpression go
  | .clauses => clauses go
  | .arguments => arguments go
  | .args => args go
  | .params => params go false
  | .lambdaParams => params go true
  | .starTargets => starTargets go
  | .starTarget => starTarget go
  | .starTargetAtom => starTargetAtom go
  | .singleTarget => singleTarget go
  | .singleSubscript => singleSubscript go
  | .targetPrimary => targetPrimary go
  | .delTarget => delTarget go
  | .delTargets => delTargets go
  | .annotatedBad => annotatedBad go
  | .block => block go
  | .statements => statements go
  | .simpleStmts => simpleStmts go
  | .simpleStmt => simpleStmt go
  | .elifStmt => elifStmt go
  | .elseBlock => elseBlock go
  | .patterns => patterns go
  | .pattern => pattern go
  | .orPattern => orPattern go
  | .closedPattern => closedPattern go
  | .maybeSequence => maybeSequence go
  | .openSequence => openSequence go
  | .positionalPatterns => positionalPatterns go

/-- Reads a construct that stands at most `depth` constructs deep. -/
def run : Nat → {s : Phrase} → Rule s → Parse s.Value
  | 0, _, _ => Parse.miss
  | depth + 1, s, rule =>
    let read : Parse s.Value := body (run depth) rule
    if rule.isMemoized then Parse.memoized rule.number s read else read

/-- Constructs nest at most this often between two tokens. -/
def nesting : Nat := 64

end Grammar

/-- The characters of all strings, in which there may be expressions. -/
def Tokens.quoted (tokens : Tokens) : List Char :=
  tokens.list.flatMap fun t => if t.kind == .string then t.text.toList else []

/-- The module that a text is, where characters have these names. -/
def Module.ofString (text : String) (names : StringLiteral.Names := fun _ => none) : Except Fault Module :=
  if text.toList.contains '\x00' then .error ⟨none, .nullByte⟩
  else
    let tokens := lex text
    let depth := Grammar.nesting * (tokens.list.length + tokens.quoted.length + 2)
    (Grammar.parseTokens names false tokens (Grammar.file (Grammar.run depth))).map Module.mk

end CodeMigration.Source
