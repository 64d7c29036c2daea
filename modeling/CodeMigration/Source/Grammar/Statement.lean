import CodeMigration.Source.Grammar.Parameter
import CodeMigration.Source.Grammar.Target
import CodeMigration.Source.Grammar.Pattern

/-! # Statements -/

namespace CodeMigration.Source.Grammar

open Parse

variable (go : Go)

def assigned : Parse Expr := go .yieldExpr <|> go .starExpressions

def augmentedOp : Parse BinaryOp :=
  firstOf ([(Symbol.plusEqual, BinaryOp.add), (.minusEqual, .sub), (.starEqual, .mul), (.atEqual, .matMul),
    (.slashEqual, .div), (.percentEqual, .mod), (.amperEqual, .bitAnd), (.vbarEqual, .bitOr),
    (.circumflexEqual, .bitXor), (.leftShiftEqual, .leftShift), (.rightShiftEqual, .rightShift),
    (.doubleStarEqual, .pow), (.doubleSlashEqual, .floorDiv)].map
      fun (s, op) => do let _ ← sym s; pure op)

def hintValue : Parse (Option Expr) := opt (do let _ ← sym .equal; assigned go)

def badAssignment : Parse Stmt := firstOf [
  do let e ← go .annotatedBad
     let _ ← sym .colon
     let _ ← go .expression
     raiseOn e (.singleTarget e.describe),
  do let e ← go .starNamed
     let _ ← sym .comma
     let _ ← many (go .starNameds)
     let _ ← sym .colon
     let _ ← go .expression
     raiseOn e (.singleTarget "tuple"),
  do let e ← go .expression
     let _ ← sym .colon
     let _ ← go .expression
     raiseOn e .illegalHint,
  ifFits
    (do let _ ← many (do let _ ← go .starTargets; sym .equal)
        let e ← go .starExpressions
        let _ ← sym .equal
        pure e)
    (fun e => raiseTarget .assign e)
    (firstOf [
      do let _ ← many (do let _ ← go .starTargets; sym .equal)
         let e ← go .yieldExpr
         let _ ← sym .equal
         raiseOn e .assignToYield,
      do let e ← go .starExpressions
         let _ ← augmentedOp
         let _ ← assigned go
         raiseOn e (.illegalAugmented e.describe)])]

def assignment : Parse Stmt := firstOf [
  spanned do
    let target ← nameExpr
    let _ ← sym .colon
    let a ← go .expression
    let value ← hintValue go
    pure fun s => .annAssign s target a value true,
  spanned do
    let target ← between .lpar .rpar (go .singleTarget) <|> go .singleSubscript
    let _ ← sym .colon
    let a ← go .expression
    let value ← hintValue go
    pure fun s => .annAssign s target a value false,
  spanned do
    let targets ← many1 (do let t ← go .starTargets; let _ ← sym .equal; pure t)
    let value ← assigned go
    notAhead (sym .equal)
    pure fun s => .assign s targets value,
  do let start ← peek
     ifFits (do let t ← go .singleTarget; let op ← augmentedOp; pure (t, op))
      (fun (target, op) => do
        let value ← assigned go
        let span ← spanFrom start
        pure (.augAssign span target op value))
      (explaining (badAssignment go))]

def returnStmt : Parse Stmt := spanned do
  let _ ← word .return_
  let e ← opt (go .starExpressions)
  pure fun s => .ret s e

def raiseStmt : Parse Stmt :=
  (spanned do
    let _ ← word .raise_
    let e ← go .expression
    let cause ← opt (do let _ ← word .from_; go .expression)
    pure fun s => .raise s (some e) cause) <|>
  (spanned do
    let _ ← word .raise_
    pure fun s => .raise s none none)

def names : Parse (List String) := do
  let ts ← sepBy1 nameToken (sym .comma)
  pure (ts.map Token.ident)

def delStmt : Parse Stmt :=
  (spanned do
    let _ ← word .del_
    let es ← go .delTargets
    ahead (sym .semi <|> accept .newline)
    pure fun s => .delete s es) <|>
  explaining (do
    let _ ← word .del_
    let e ← go .starExpressions
    raiseTarget .delete e)

def assertStmt : Parse Stmt := spanned do
  let _ ← word .assert_
  let test ← go .expression
  let message ← opt (do let _ ← sym .comma; go .expression)
  pure fun s => .assert s test message

def dottedName : Parse String := do
  let ts ← sepBy1 nameToken (sym .dot)
  pure (".".intercalate (ts.map Token.ident))

def aliasOf : Parse (Option String) := opt do
  let _ ← word .as_
  let t ← nameToken
  pure (Token.ident t)

def importName : Parse Stmt := spanned do
  let _ ← word .import_
  let names ← sepBy1 (do let n ← dottedName; let a ← aliasOf; pure (Alias.mk n a)) (sym .comma)
  pure fun s => .importModules s names

def importAsNames : Parse (List Alias) :=
  sepBy1 (do let t ← nameToken; let a ← aliasOf; pure (Alias.mk (Token.ident t) a)) (sym .comma)

def importTargets : Parse (List Alias) := firstOf [
  do let _ ← sym .lpar
     let names ← importAsNames
     let _ ← opt (sym .comma)
     let _ ← sym .rpar
     pure names,
  do let names ← importAsNames
     notAhead (sym .comma)
     pure names,
  do let _ ← sym .star
     pure [⟨"*", none⟩],
  explaining (do
    let _ ← importAsNames
    let _ ← sym .comma
    let _ ← accept .newline
    raise .trailingComma)]

def dots : Parse Nat :=
  (do let _ ← sym .dot; pure 1) <|> (do let _ ← sym .ellipsis; pure 3)

def importFrom : Parse Stmt :=
  (spanned do
    let _ ← word .from_
    let ds ← many dots
    let n ← dottedName
    let _ ← word .import_
    let names ← importTargets
    pure fun s => .importFrom s (some n) names (ds.foldr (· + ·) 0)) <|>
  (spanned do
    let _ ← word .from_
    let ds ← many1 dots
    let _ ← word .import_
    let names ← importTargets
    pure fun s => .importFrom s none names (ds.foldr (· + ·) 0))

def wordStmt (w : Word) (make : Span → Stmt) : Parse Stmt := do
  let t ← word w
  pure (make t.span)

def namesStmt (w : Word) (make : Span → List String → Stmt) : Parse Stmt := spanned do
  let _ ← word w
  let ns ← names
  pure fun s => make s ns

def simpleStmt : Parse Stmt := firstOf [
  assignment go,
  spanned do
    let e ← go .starExpressions
    pure fun s => .expr s e,
  returnStmt go,
  importName,
  importFrom,
  raiseStmt go,
  wordStmt .pass_ .pass,
  delStmt go,
  spanned do
    let e ← go .yieldExpr
    pure fun s => .expr s e,
  assertStmt go,
  wordStmt .break_ .breakLoop,
  wordStmt .continue_ .continueLoop,
  namesStmt .global_ .global,
  namesStmt .nonlocal_ .nonlocal]

def simpleStmts : Parse (List Stmt) :=
  (do let s ← go .simpleStmt
      notAhead (sym .semi)
      let _ ← accept .newline
      pure [s]) <|>
    (do let ss ← sepBy1 (go .simpleStmt) (sym .semi)
        let _ ← opt (sym .semi)
        let _ ← accept .newline
        pure ss)

def block : Parse (List Stmt) := firstOf [
  do let _ ← accept .newline
     let _ ← accept .indent
     let ss ← go .statements
     let _ ← accept .dedent
     pure ss,
  go .simpleStmts,
  explaining (do
    let _ ← accept .newline
    notAhead (accept .indent)
    raise .expectedBlock)]

/-- A line end that no deeper line follows. -/
def noBlock {α : Type} (start : Token) (what : String) : Parse α := do
  let _ ← accept .newline
  notAhead (accept .indent)
  raise (.expectedBlockAfter what start.span.line)

def colon : Parse Token := sym .colon

def forcedColon : Parse Token := force (.symbol .colon) "':'"

/-- A line that ends where a colon belongs. -/
def noColon {α : Type} : Parse α := do
  let _ ← accept .newline
  raise (.expected "':'")

def badElse : Parse (List Stmt) := do
  let t ← word .else_
  let _ ← colon
  noBlock t "'else' statement"

def elseBlock : Parse (List Stmt) :=
  explaining badElse <|> (do
    let _ ← word .else_
    let _ ← forcedColon
    go .block)

/-- The head of a statement without its colon or its block; it gives the token that names the statement. -/
def badHead {α : Type} (what : String) (head : Parse Token) : Parse α :=
  (do let _ ← head; noColon) <|> (do let t ← head; let _ ← colon; noBlock t what)

def badTest {α : Type} (w : Word) (what : String) : Parse α := badHead what do
  let t ← word w
  let _ ← go .namedExpression
  pure t

def branch (w : Word) (what : String) : Parse Stmt :=
  firstOf [
    explaining (badTest go w what),
    spanned do
      let _ ← word w
      let test ← go .namedExpression
      let _ ← colon
      let body ← go .block
      let rest ← go .elifStmt
      pure fun s => .ifElse s test body [rest],
    spanned do
      let _ ← word w
      let test ← go .namedExpression
      let _ ← colon
      let body ← go .block
      let orelse ← opt (go .elseBlock)
      pure fun s => .ifElse s test body (orelse.getD [])]

def ifStmt : Parse Stmt := branch go .if_ "'if' statement"

def elifStmt : Parse Stmt := branch go .elif_ "'elif' statement"

def whileStmt : Parse Stmt :=
  explaining (badTest go .while_ "'while' statement") <|>
    (spanned do
      let _ ← word .while_
      let test ← go .namedExpression
      let _ ← colon
      let body ← go .block
      let orelse ← opt (go .elseBlock)
      pure fun s => .whileLoop s test body (orelse.getD []))

def badFor : Parse Stmt := badHead "'for' statement" do
  let _ ← opt (word .async_)
  let t ← word .for_
  let _ ← go .starTargets
  let _ ← word .in_
  let _ ← go .starExpressions
  pure t

def forStmt : Parse Stmt :=
  explaining (badFor go) <|> (do
    let start ← peek
    ifFits (forHead go)
      (fun (async, target) => do
        let iter ← go .starExpressions
        let _ ← colon
        let body ← go .block
        let orelse ← opt (go .elseBlock)
        let span ← spanFrom start
        pure (.forLoop span async target iter body (orelse.getD [])))
      (explaining (badForTarget go)))

def withItem : Parse WithItem := firstOf [
  do let e ← go .expression
     let _ ← word .as_
     let t ← go .starTarget
     ahead (firstOf [sym .comma, sym .rpar, sym .colon])
     pure ⟨e, some t⟩,
  explaining (do
    let _ ← go .expression
    let _ ← word .as_
    let e ← go .expression
    ahead (firstOf [sym .comma, sym .rpar, sym .colon])
    raiseTarget .assign e),
  do let e ← go .expression
     pure ⟨e, none⟩]

/-- The items as far as a fault needs them. -/
def looseItems (item : Parse Expr) : Parse Unit := do
  let _ ← sepBy1 (do
    let _ ← item
    opt (do let _ ← word .as_; go .starTarget)) (sym .comma)
  pure ()

def looseParenthesized : Parse Unit := do
  let _ ← sym .lpar
  looseItems go (go .expressions)
  let _ ← opt (sym .comma)
  let _ ← sym .rpar

def badWithBlock : Parse Stmt := firstOf [
  do let _ ← opt (word .async_)
     let t ← word .with_
     looseItems go (go .expression)
     let _ ← colon
     noBlock t "'with' statement",
  do let _ ← opt (word .async_)
     let t ← word .with_
     looseParenthesized go
     let _ ← colon
     noBlock t "'with' statement"]

def badWith : Parse Stmt := firstOf [
  do let _ ← opt (word .async_)
     let _ ← word .with_
     looseItems go (go .expression)
     noColon,
  do let _ ← opt (word .async_)
     let _ ← word .with_
     looseParenthesized go
     noColon]

def withStmt : Parse Stmt := firstOf [
  explaining (badWithBlock go),
  spanned do
    let async ← opt (word .async_)
    let _ ← word .with_
    let items ← between .lpar .rpar (commaList (withItem go))
    let _ ← colon
    let body ← go .block
    pure fun s => .withBlock s async.isSome items body,
  spanned do
    let async ← opt (word .async_)
    let _ ← word .with_
    let items ← sepBy1 (withItem go) (sym .comma)
    let _ ← colon
    let body ← go .block
    pure fun s => .withBlock s async.isSome items body,
  explaining (badWith go)]

def badExceptBlock (star : Bool) : Parse Handler := firstOf [
  do let t ← word .except_
     let _ ← if star then (do let _ ← sym .star) else pure ()
     let _ ← go .expression
     let _ ← aliasOf
     let _ ← colon
     noBlock t (if star then "'except*' statement" else "'except' statement"),
  do if star then miss
     let t ← word .except_
     let _ ← colon
     noBlock t "'except' statement"]

def badExcept : Parse Handler := firstOf [
  do let _ ← word .except_
     let _ ← opt (sym .star)
     let e ← go .expression
     let _ ← sym .comma
     let _ ← go .expressions
     let _ ← aliasOf
     let _ ← colon
     raiseOn e .exceptParentheses,
  do let _ ← word .except_
     let _ ← opt (sym .star)
     let _ ← go .expression
     let _ ← aliasOf
     noColon,
  do let _ ← word .except_
     noColon,
  do let _ ← word .except_
     let _ ← sym .star
     let _ ← accept .newline <|> colon
     raise .expectedExceptionTypes]

def exceptBlock (star : Bool) : Parse Handler := firstOf [
  explaining (badExceptBlock go star),
  spanned do
    let _ ← word .except_
    let _ ← if star then (do let _ ← sym .star) else pure ()
    let type ← go .expression
    let name ← aliasOf
    let _ ← colon
    let body ← go .block
    pure fun s => .mk s (some type) name body,
  spanned do
    if star then miss
    let _ ← word .except_
    let _ ← colon
    let body ← go .block
    pure fun s => .mk s none none body,
  explaining (badExcept go)]

def finallyBlock : Parse (List Stmt) :=
  explaining (do
    let t ← word .finally_
    let _ ← colon
    noBlock t "'finally' statement") <|>
  (do let _ ← word .finally_
      let _ ← forcedColon
      go .block)

def badTry : Parse Stmt := firstOf [
  do let t ← word .try_
     let _ ← colon
     noBlock t "'try' statement",
  do let _ ← word .try_
     let _ ← colon
     let _ ← go .block
     notAhead (word .except_ <|> word .finally_)
     raise .expectedHandler,
  do let _ ← word .try_
     let _ ← colon
     let _ ← many (go .block)
     let _ ← (do
         let _ ← many1 (exceptBlock go false)
         exceptBlock go true) <|>
       (do
         let _ ← many1 (exceptBlock go true)
         exceptBlock go false)
     let _ ← many (go .block)
     raise .mixedHandlers]

def tryHandlers (star : Bool) : Parse Stmt := spanned do
  let _ ← word .try_
  let _ ← forcedColon
  let body ← go .block
  let handlers ← many1 (exceptBlock go star)
  let orelse ← opt (go .elseBlock)
  let cleanup ← opt (finallyBlock go)
  pure fun s => .tryBlock s star body handlers (orelse.getD []) (cleanup.getD [])

def tryStmt : Parse Stmt := firstOf [
  explaining (badTry go),
  spanned do
    let _ ← word .try_
    let _ ← forcedColon
    let body ← go .block
    let cleanup ← finallyBlock go
    pure fun s => .tryBlock s false body [] [] cleanup,
  tryHandlers go false,
  tryHandlers go true]

def subject : Parse Expr :=
  (spanned do
    let e ← go .starNamed
    let _ ← sym .comma
    let es ← opt (go .starNameds)
    pure fun s => .display s .tuple (e :: es.getD [])) <|> go .namedExpression

def guard : Parse Expr := do
  let _ ← word .if_
  go .namedExpression

def badCase : Parse Case := badHead "'case' statement" do
  let t ← softWord "case"
  let _ ← go .patterns
  let _ ← opt (guard go)
  pure t

def caseBlock : Parse Case :=
  explaining (badCase go) <|> (do
    let _ ← softWord "case"
    let p ← go .patterns
    let g ← opt (guard go)
    let _ ← colon
    let body ← go .block
    pure (.mk p g body))

def matchStmt : Parse Stmt :=
  (spanned do
    let _ ← softWord "match"
    let e ← subject go
    let _ ← colon
    let _ ← accept .newline
    let _ ← accept .indent
    let cases ← many1 (caseBlock go)
    let _ ← accept .dedent
    pure fun s => .matchCases s e cases) <|>
  explaining (badHead "'match' statement" do let t ← softWord "match"; let _ ← subject go; pure t)

def decorators : Parse (List Expr) := many1 do
  let _ ← sym .at
  let e ← go .namedExpression
  let _ ← accept .newline
  pure e

def badDef : Parse Stmt := do
  let _ ← opt (word .async_)
  let t ← word .def_
  let _ ← nameToken
  let _ ← sym .lpar
  let _ ← opt (go .params)
  let _ ← sym .rpar
  let _ ← opt (do let _ ← sym .arrow; go .expression)
  let _ ← colon
  noBlock t "function definition"

def functionDef (decorators : List Expr) : Parse Stmt :=
  explaining (badDef go) <|>
    (spanned do
      let async ← opt (word .async_)
      let _ ← word .def_
      let t ← nameToken
      let _ ← force (.symbol .lpar) "'('"
      let params ← opt (go .params)
      let _ ← sym .rpar
      let returns ← opt (do let _ ← sym .arrow; go .expression)
      let _ ← forcedColon
      let body ← go .block
      pure fun s =>
        .functionDef s async.isSome (Token.ident t) (params.getD default) body decorators returns)

def badClass : Parse Stmt := badHead "class definition" do
  let t ← word .class_
  let _ ← nameToken
  let _ ← opt (between .lpar .rpar (opt (go .arguments)))
  pure t

def classDef (decorators : List Expr) : Parse Stmt :=
  explaining (badClass go) <|>
    (spanned do
      let _ ← word .class_
      let t ← nameToken
      let args ← opt (between .lpar .rpar (opt (go .arguments)))
      let _ ← colon
      let body ← go .block
      let args := args.bind id
      pure fun s => .classDef s (Token.ident t) ((args.map Args.positional).getD [])
        ((args.map Args.keywords).getD []) body decorators)

def decorated (definition : List Expr → Parse Stmt) : Parse Stmt :=
  (do let ds ← decorators go; definition ds) <|> definition []

def compoundStmt : Parse Stmt := firstOf [
  do ahead (firstOf [word .def_, sym .at, word .async_])
     decorated go (functionDef go),
  do ahead (word .if_); ifStmt go,
  do ahead (word .class_ <|> sym .at)
     decorated go (classDef go),
  do ahead (word .with_ <|> word .async_); withStmt go,
  do ahead (word .for_ <|> word .async_); forStmt go,
  do ahead (word .try_); tryStmt go,
  do ahead (word .while_); whileStmt go,
  matchStmt go]

def statements : Parse (List Stmt) := do
  let sss ← many1 ((do let s ← compoundStmt go; pure [s]) <|> go .simpleStmts)
  pure sss.flatten

def file : Parse (List Stmt) := do
  let ss ← opt (go .statements)
  let _ ← accept .finish
  pure (ss.getD [])

end CodeMigration.Source.Grammar
