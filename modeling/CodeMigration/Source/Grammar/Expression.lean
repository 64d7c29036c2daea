import CodeMigration.Source.Grammar.Strings
import CodeMigration.Source.NumberLiteral
import CodeMigration.Text.Composed

/-! # Expressions

From the loosest to the tightest: conditionals, boolean operators, comparisons, arithmetic, trailers,
atoms. A construct with a choice that only finds a better explanation has it behind `explaining`. -/

namespace CodeMigration.Source.Grammar

open Parse

def Token.ident (t : Token) : String := Text.identForm t.text

def nameToken : Parse Token := accept .name

def nameExpr : Parse Expr := spanned do
  let t ← nameToken
  pure fun s => .name s (Token.ident t)

def raiseOn {α : Type} (e : Expr) (cause : Cause) : Parse α := raiseAt e.span.line cause

/-- Blames the part of an expression that is no target; fits nothing if there is none. -/
def raiseTarget {α : Type} (use : TargetUse) (e : Expr) : Parse α :=
  match badTarget? use e with
  | some bad => raiseOn bad (if use = .delete then .cannotDelete bad.describe else .cannotAssign bad.describe)
  | none => miss

variable (go : Go)

def tupled (item : Parse Expr) : Parse Expr := do
  let start ← peek
  let first ← item
  ifFits (sym .comma)
    (fun _ => do
      let rest ← opt (sepBy1 item (sym .comma))
      let _ ← if rest.isSome then opt (sym .comma) else pure none
      let span ← spanFrom start
      pure (.display span .tuple (first :: rest.getD [])))
    (pure first)

def starExpressions : Parse Expr := tupled (go .starExpression)

def expressions : Parse Expr := tupled (go .expression)

def starred (operand : Parse Expr) : Parse Expr := spanned do
  let _ ← sym .star
  let e ← operand
  pure fun s => .starred s e

def starExpression : Parse Expr := starred (go .bitwiseOr) <|> go .expression

def starNamed : Parse Expr := starred (go .bitwiseOr) <|> go .namedExpression

def starNameds : Parse (List Expr) := commaList (go .starNamed)

def starredExpression : Parse Expr := starred (go .expression)

def assignmentExpression : Parse Expr := spanned do
  let target ← nameExpr
  let _ ← sym .walrus
  let value ← go .expression
  pure fun s => .walrus s target value

/-- An expression that no `:=` follows. -/
def unassigned : Parse Expr := do
  let e ← go .expression
  notAhead (sym .walrus)
  pure e

def namedExpression : Parse Expr :=
  firstOf [go .assignmentExpression, explaining (go .badNamed), unassigned go]

def notAssigned : Parse Unit := notAhead (sym .equal <|> sym .walrus)

def badNamed : Parse Expr := firstOf [
  do let e ← go .expression
     let _ ← sym .walrus
     let _ ← go .expression
     raiseOn e (.cannotWalrus e.describe),
  do let t ← nameToken
     let _ ← sym .equal
     let _ ← go .bitwiseOr
     notAssigned
     raiseAt t.span.line .maybeEqual,
  do notAhead (firstOf [go .list, go .tuple, go .generator])
     notAhead (firstOf [word .true_, word .none_, word .false_])
     let e ← go .bitwiseOr
     let _ ← sym .equal
     let _ ← go .bitwiseOr
     notAssigned
     raiseOn e (.cannotAssignHere e.describe)]

/-- Whether an expression is the name of a statement that became a function. -/
def isLegacyName : Expr → Bool
  | .name _ id => id == "print" || id == "exec"
  | _ => false

def badExpression : Parse Expr :=
  ifFits
    (do notAhead ((do let _ ← nameToken; accept .string) <|>
          firstOf [softWord "_", softWord "case", softWord "match"])
        let a ← go .disjunction
        let _ ← quietly (go .plainExpression)
        let t ← lastToken
        pure (a, t))
    (fun (a, t) => if isLegacyName a || t.depth == 0 then miss else raiseOn a .forgottenComma)
    (do let a ← go .disjunction
        let _ ← word .if_
        let _ ← go .disjunction
        notAhead (word .else_ <|> sym .colon)
        raiseOn a .expectedElse)

def legacyExpression : Parse Expr := do
  let a ← nameExpr
  notAhead (sym .lpar)
  let _ ← go .starExpressions
  match a with
  | .name _ id => if isLegacyName a then raiseOn a (.missingParentheses id) else miss
  | _ => miss

def conditional : Parse Expr := spanned do
  let body ← go .disjunction
  let _ ← word .if_
  let test ← go .disjunction
  let _ ← word .else_
  let orelse ← go .expression
  pure fun s => .conditional s test body orelse

def plainExpression : Parse Expr := firstOf [conditional go, go .disjunction, go .lambda]

def expression : Parse Expr :=
  firstOf [explaining (badExpression go), explaining (legacyExpression go), plainExpression go]

def lambda : Parse Expr := spanned do
  let _ ← word .lambda_
  let params ← opt (go .lambdaParams)
  let _ ← sym .colon
  let body ← go .expression
  pure fun s => .lambda s (params.getD default) body

def yieldExpr : Parse Expr := spanned do
  let _ ← word .yield_
  (do let _ ← word .from_
      let e ← go .expression
      pure fun s => .yieldFrom s e) <|>
    (do let e ← opt (go .starExpressions)
        pure fun s => .yield s e)

def logical (op : LogicalOp) (w : Word) (operand : Parse Expr) : Parse Expr := do
  let start ← peek
  let first ← operand
  let rest ← many (do let _ ← word w; operand)
  if rest.isEmpty then pure first
  else
    let span ← spanFrom start
    pure (.logical span op (first :: rest))

def disjunction : Parse Expr := logical .or .or_ (go .conjunction)

def conjunction : Parse Expr := logical .and .and_ (go .inversion)

def inversion : Parse Expr :=
  (spanned do
    let _ ← word .not_
    let e ← go .inversion
    pure fun s => .unary s .not e) <|> go .comparison

def compareOp : Parse CompareOp := firstOf [
  do let _ ← sym .eqEqual; pure .eq,
  do let _ ← sym .notEqual; pure .notEq,
  do let _ ← sym .lessEqual; pure .ltE,
  do let _ ← sym .less; pure .lt,
  do let _ ← sym .greaterEqual; pure .gtE,
  do let _ ← sym .greater; pure .gt,
  do let _ ← word .not_; let _ ← word .in_; pure .notInside,
  do let _ ← word .in_; pure .inside,
  do let _ ← word .is_; let _ ← word .not_; pure .isNot,
  do let _ ← word .is_; pure .is]

def compared : Parse (CompareOp × Expr) := do
  let op ← compareOp
  let e ← go .bitwiseOr
  pure (op, e)

def comparison : Parse Expr := do
  let start ← peek
  let left ← go .bitwiseOr
  let pairs ← many (compared go)
  if pairs.isEmpty then pure left
  else
    let span ← spanFrom start
    pure (.compare span left (pairs.map Prod.fst) (pairs.map Prod.snd))

def leftGrouped (ops : List (Symbol × BinaryOp)) (operand : Parse Expr) : Parse Expr := do
  let start ← peek
  let first ← operand
  let step (left : Expr) : Parse Expr := do
    let op ← firstOf (ops.map fun (s, op) => do let _ ← sym s; pure op)
    let right ← operand
    let span ← spanFrom start
    pure (.binary span op left right)
  extend step first

def bitwiseOr : Parse Expr := leftGrouped [(.vbar, .bitOr)] (go .bitwiseXor)

def bitwiseXor : Parse Expr := leftGrouped [(.circumflex, .bitXor)] (go .bitwiseAnd)

def bitwiseAnd : Parse Expr := leftGrouped [(.amper, .bitAnd)] (go .shift)

def shift : Parse Expr := leftGrouped [(.leftShift, .leftShift), (.rightShift, .rightShift)] (go .sum)

def sum : Parse Expr := leftGrouped [(.plus, .add), (.minus, .sub)] (go .term)

def term : Parse Expr := leftGrouped
  [(.star, .mul), (.slash, .div), (.doubleSlash, .floorDiv), (.percent, .mod), (.at, .matMul)] (go .factor)

def signed (s : Symbol) (op : UnaryOp) : Parse Expr := spanned do
  let _ ← sym s
  let e ← go .factor
  pure fun span => .unary span op e

def factor : Parse Expr :=
  firstOf [signed go .plus .plus, signed go .minus .minus, signed go .tilde .invert, go .power]

def power : Parse Expr := do
  let start ← peek
  let base ← go .awaitPrimary
  ifFits (do let _ ← sym .doubleStar; go .factor)
    (fun exponent => do
      let span ← spanFrom start
      pure (.binary span .pow base exponent))
    (pure base)

def awaitPrimary : Parse Expr :=
  (spanned do
    let _ ← word .await_
    let e ← go .primary
    pure fun s => .await s e) <|> go .primary

/-- A member, a call or an element of `e`, with `behind` behind it. -/
def trailer (behind : Parse Unit) (start : Token) (e : Expr) : Parse Expr := firstOf [
  do let _ ← sym .dot
     let t ← nameToken
     let span ← spanFrom start
     behind
     pure (.member span e (Token.ident t)),
  do let g ← go .generator
     let span ← spanFrom start
     behind
     pure (.call span e [g] []),
  do let args ← between .lpar .rpar (opt (go .arguments))
     let span ← spanFrom start
     behind
     pure (.call span e ((args.map Args.positional).getD []) ((args.map Args.keywords).getD [])),
  do let index ← between .lsqb .rsqb (go .slices)
     let span ← spanFrom start
     behind
     pure (.subscript span e index)]

def primary : Parse Expr := do
  let start ← peek
  let e ← go .atom
  extend (trailer go (pure ()) start) e

def oneSlice : Parse Expr :=
  (spanned do
    let lower ← opt (go .expression)
    let _ ← sym .colon
    let upper ← opt (go .expression)
    let step ← opt (do let _ ← sym .colon; opt (go .expression))
    pure fun s => .slice s lower upper (step.bind id)) <|> go .namedExpression

def slices : Parse Expr :=
  (do let e ← oneSlice go
      notAhead (sym .comma)
      pure e) <|>
    (spanned do
      let es ← commaList (oneSlice go <|> go .starredExpression)
      pure fun s => .display s .tuple es)

/-- An argument after the first keyword. -/
inductive LateArg where
  | positional (e : Expr)
  | keyword (k : Keyword)

def LateArg.positional? : LateArg → Option Expr
  | .positional e => some e
  | .keyword _ => none

def LateArg.keyword? : LateArg → Option Keyword
  | .positional _ => none
  | .keyword k => some k

def badKeyword : Parse LateArg := firstOf [
  do let t ← firstOf [word .true_, word .false_, word .none_]
     let _ ← sym .equal
     raiseAt t.span.line (.cannotAssign t.text),
  do let t ← nameToken
     let _ ← sym .equal
     let _ ← go .expression
     let _ ← go .clauses
     raiseAt t.span.line .maybeEqual,
  do notAhead (do let _ ← nameToken; sym .equal)
     let e ← go .expression
     let _ ← sym .equal
     raiseOn e .assignmentInCall]

def keywordArg : Parse LateArg := do
  let t ← nameToken
  let _ ← sym .equal
  let e ← go .expression
  pure (.keyword (.mk (some (Token.ident t)) e))

def keywordOrStarred : Parse LateArg := firstOf [
  explaining (badKeyword go),
  keywordArg go,
  do let e ← go .starredExpression; pure (.positional e)]

def keywordOrSpread : Parse LateArg := firstOf [
  explaining (badKeyword go),
  keywordArg go,
  do let _ ← sym .doubleStar
     let e ← go .expression
     pure (.keyword (.mk none e))]

def lateArgs : Parse (List LateArg) := firstOf [
  do let a ← sepBy1 (keywordOrStarred go) (sym .comma)
     let _ ← sym .comma
     let b ← sepBy1 (keywordOrSpread go) (sym .comma)
     pure (a ++ b),
  sepBy1 (keywordOrStarred go) (sym .comma),
  sepBy1 (keywordOrSpread go) (sym .comma)]

def positionalArg : Parse Expr :=
  go .starredExpression <|>
    (do let e ← go .assignmentExpression <|> unassigned go
        notAhead (sym .equal)
        pure e)

def args : Parse Args :=
  (do let early ← sepBy1 (positionalArg go) (sym .comma)
      let late ← opt (do let _ ← sym .comma; lateArgs go)
      let late := late.getD []
      pure ⟨early ++ late.filterMap LateArg.positional?, late.filterMap LateArg.keyword?⟩) <|>
    (do let late ← lateArgs go
        pure ⟨late.filterMap LateArg.positional?, late.filterMap LateArg.keyword?⟩)

def Keyword.isSpread : Keyword → Bool
  | .mk none _ => true
  | .mk (some _) _ => false

def badArguments : Parse Args := firstOf [
  do let start ← peek
     let _ ← go .args
     let _ ← sym .comma
     let _ ← sym .star
     raiseAt start.span.line .unpackingAfterKeywords,
  do let e ← go .expression
     let _ ← go .clauses
     let _ ← sym .comma
     let _ ← opt ((do let _ ← go .args; pure ()) <|>
       (do let _ ← go .expression; let _ ← go .clauses; pure ()))
     raiseOn e .generatorParentheses,
  do let t ← nameToken
     let _ ← sym .equal
     let _ ← go .expression
     let _ ← go .clauses
     raiseAt t.span.line .maybeEqual,
  ifFits (do let a ← go .args; let _ ← go .clauses; pure a)
    (fun a => match a.positional.getLast? with
      | some e => if a.positional.length ≤ 1 then miss else raiseOn e .generatorParentheses
      | none => miss)
    (firstOf [
      do let _ ← go .args
         let _ ← sym .comma
         let e ← go .expression
         let _ ← go .clauses
         raiseOn e .generatorParentheses,
      do let a ← go .args
         let _ ← sym .comma
         let _ ← go .args
         raise (if a.keywords.any Keyword.isSpread then .positionalAfterUnpacking else .positionalAfterKeyword)])]

def arguments : Parse Args :=
  (do let a ← go .args
      let _ ← opt (sym .comma)
      ahead (sym .rpar)
      pure a) <|> explaining (badArguments go)

def badForTarget {α : Type} : Parse α := do
  let _ ← opt (word .async_)
  let _ ← word .for_
  let e ← go .starExpressions
  raiseTarget .loop e

/-- `for` as far as `in`: whether it is asynchronous, and its targets. -/
def forHead : Parse (Bool × Expr) := do
  let async ← opt (word .async_)
  let _ ← word .for_
  let target ← go .starTargets
  let _ ← word .in_
  pure (async.isSome, target)

def clause : Parse Clause :=
  ifFits (forHead go)
    (fun (async, target) => do
      let iter ← go .disjunction
      let conditions ← many (do let _ ← word .if_; go .disjunction)
      pure (.mk async target iter conditions))
    (explaining (badForTarget go))

def clauses : Parse (List Clause) := many1 (clause go)

def badComprehension : Parse Expr := firstOf [
  do let _ ← firstOf [sym .lsqb, sym .lpar, sym .lbrace]
     let e ← go .starredExpression
     let _ ← go .clauses
     raiseOn e .comprehensionUnpacking,
  do let _ ← sym .lsqb <|> sym .lbrace
     let e ← go .starNamed
     let _ ← sym .comma
     let _ ← go .starNameds
     let _ ← go .clauses
     raiseOn e .comprehensionTarget,
  do let _ ← sym .lsqb <|> sym .lbrace
     let e ← go .starNamed
     let _ ← sym .comma
     let _ ← go .clauses
     raiseOn e .comprehensionTarget]

def comprehension (kind : ComprehensionKind) (opening closing : Symbol) (element : Parse Expr) : Parse Expr :=
  (spanned do
    let _ ← sym opening
    let e ← element
    let cs ← go .clauses
    let _ ← sym closing
    pure fun s => .comprehension s kind e cs) <|> explaining (badComprehension go)

def generator : Parse Expr :=
  comprehension go .generator .lpar .rpar (go .assignmentExpression <|> unassigned go)

def bracketed (kind : DisplayKind) (opening closing : Symbol) (items : Parse (List Expr)) : Parse Expr := spanned do
  let es ← between opening closing (opt items)
  pure fun s => .display s kind (es.getD [])

def list : Parse Expr := bracketed .list .lsqb .rsqb (go .starNameds)

def set : Parse Expr := spanned do
  let es ← between .lbrace .rbrace (go .starNameds)
  pure fun s => .display s .set es

def tuple : Parse Expr := bracketed .tuple .lpar .rpar do
  let e ← go .starNamed
  let _ ← sym .comma
  let rest ← opt (go .starNameds)
  pure (e :: rest.getD [])

def badGroup : Parse Expr := firstOf [
  do let e ← between .lpar .rpar (go .starredExpression)
     raiseOn e .starredHere,
  do let _ ← sym .lpar
     let t ← sym .doubleStar
     let _ ← go .expression
     let _ ← sym .rpar
     raiseAt t.span.line .doubleStarredHere]

def group : Parse Expr :=
  between .lpar .rpar (go .yieldExpr <|> go .namedExpression) <|> explaining (badGroup go)

def pair : Parse (Expr × Expr) := do
  let key ← go .expression
  let _ ← sym .colon
  let value ← go .expression
  pure (key, value)

def dictItem : Parse DictItem :=
  (do let _ ← sym .doubleStar
      let e ← go .bitwiseOr
      pure (.spread e)) <|>
    (do let (key, value) ← pair go; pure (.pair key value))

/-- A key with a value that is starred or missing. -/
def badValue : Parse Unit := firstOf [
  do let _ ← go .expression
     let _ ← sym .colon
     let star ← sym .star
     let _ ← go .bitwiseOr
     raiseAt star.span.line .starredValue,
  do let _ ← go .expression
     let colon ← sym .colon
     ahead (sym .rbrace <|> sym .comma)
     raiseAt colon.span.line .valueAfterKey]

def badItems : Parse Unit :=
  (do let _ ← sepBy1 (dictItem go) (sym .comma)
      let _ ← sym .comma
      (do let e ← go .expression
          notAhead (sym .colon)
          raiseOn e .colonAfterKey) <|> badValue go) <|> badValue go

def dict : Parse Expr :=
  (spanned do
    let items ← between .lbrace .rbrace (opt (commaList (dictItem go)))
    pure fun s => .dict s (items.getD [])) <|>
    (do between .lbrace .rbrace (badItems go); miss)

def dictComprehension : Parse Expr :=
  (spanned do
    let _ ← sym .lbrace
    let (key, value) ← pair go
    let cs ← go .clauses
    let _ ← sym .rbrace
    pure fun s => .dictComprehension s key value cs) <|>
    explaining (do
      let _ ← sym .lbrace
      let t ← sym .doubleStar
      let _ ← go .bitwiseOr
      let _ ← go .clauses
      let _ ← sym .rbrace
      raiseAt t.span.line .dictUnpacking)

def number : Parse Expr := do
  let t ← accept .number
  match NumberLiteral.parse t.text.toList with
  | .ok value => pure (.literal t.span value)
  | .error cause => raiseAt t.span.line cause

def constant (w : Word) (value : Literal) : Parse Expr := do
  let t ← word w
  pure (.literal t.span value)

def constants : Parse Expr :=
  firstOf [constant .true_ (.bool true), constant .false_ (.bool false), constant .none_ .null]

def atom : Parse Expr := firstOf [
  nameExpr,
  constants,
  do ahead (accept .string); go .strings,
  number,
  do ahead (sym .lpar)
     firstOf [go .tuple, group go, go .generator],
  do ahead (sym .lsqb)
     firstOf [go .list, comprehension go .list .lsqb .rsqb (go .namedExpression)],
  do ahead (sym .lbrace)
     firstOf [dict go, set go, dictComprehension go,
       comprehension go .set .lbrace .rbrace (go .namedExpression)],
  do let t ← sym .ellipsis
     pure (.literal t.span .ellipsis)]

end CodeMigration.Source.Grammar
