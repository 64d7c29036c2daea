import CodeMigration.Source.Grammar.Expression

/-! # Patterns of `case` -/

namespace CodeMigration.Source.Grammar

open Parse

variable (go : Go)

def Expr.isImaginary : Expr → Bool
  | .literal _ (.imaginary _) => true
  | _ => false

def realNumber : Parse Expr := do
  let e ← number
  if Expr.isImaginary e then raiseOn e .realRequired else pure e

def imaginaryNumber : Parse Expr := do
  let e ← number
  if Expr.isImaginary e then pure e else raiseOn e .imaginaryRequired

def signedNumber (n : Parse Expr) : Parse Expr :=
  n <|> (spanned do
    let _ ← sym .minus
    let e ← n
    pure fun s => .unary s .minus e)

def complexNumber : Parse Expr := do
  let start ← peek
  let a ← signedNumber realNumber
  let op ← (do let _ ← sym .plus; pure BinaryOp.add) <|> (do let _ ← sym .minus; pure BinaryOp.sub)
  let b ← imaginaryNumber
  let span ← spanFrom start
  pure (.binary span op a b)

def numberPattern : Parse Expr :=
  (do let e ← signedNumber number
      notAhead (sym .plus <|> sym .minus)
      pure e) <|> complexNumber

def singletonPattern : Parse Pattern := do
  let e ← firstOf [constant .none_ .null, constant .true_ (.bool true), constant .false_ (.bool false)]
  match e with
  | .literal _ value => pure (.singleton value)
  | _ => miss

def literalPattern : Parse Pattern :=
  (do let e ← numberPattern <|> go .strings
      pure (.value e)) <|> singletonPattern

def notReference : Parse Unit := notAhead (firstOf [sym .dot, sym .lpar, sym .equal])

def captureTarget : Parse String := do
  notAhead (softWord "_")
  let t ← nameToken
  notReference
  pure (Token.ident t)

def dotted : Parse Expr := do
  let start ← peek
  let e ← nameExpr
  let member (e : Expr) : Parse Expr := do
    let _ ← sym .dot
    let t ← nameToken
    let span ← spanFrom start
    pure (.member span e (Token.ident t))
  let e ← member e
  extend member e

def nameOrDotted : Parse Expr := dotted <|> nameExpr

def starPattern : Parse Pattern :=
  (do let _ ← sym .star
      let name ← captureTarget
      pure (.star (some name))) <|>
    (do let _ ← sym .star
        let _ ← softWord "_"
        pure (.star none))

def maybeStar : Parse Pattern := starPattern <|> go .pattern

def maybeSequence : Parse (List Pattern) := commaList (maybeStar go)

def openSequence : Parse (List Pattern) := do
  let p ← maybeStar go
  let _ ← sym .comma
  let ps ← opt (go .maybeSequence)
  pure (p :: ps.getD [])

def patterns : Parse Pattern :=
  (do let ps ← go .openSequence; pure (.sequence ps)) <|> go .pattern

def badAsPattern : Parse Pattern := firstOf [
  do let _ ← go .orPattern
     let _ ← word .as_
     let t ← softWord "_"
     raiseAt t.span.line .wildcardTarget,
  do let _ ← go .orPattern
     let _ ← word .as_
     notAhead nameToken
     let e ← go .expression
     raiseOn e .invalidPatternTarget]

def pattern : Parse Pattern := firstOf [
  do let p ← go .orPattern
     let _ ← word .as_
     let name ← captureTarget
     pure (.capture (some p) (some name)),
  explaining (badAsPattern go),
  go .orPattern]

def orPattern : Parse Pattern := do
  let ps ← sepBy1 (go .closedPattern) (sym .vbar)
  match ps with
  | [p] => pure p
  | ps => pure (.anyOf ps)

def literalKey : Parse Expr := firstOf [
  numberPattern,
  go .strings,
  constant .none_ .null,
  constant .true_ (.bool true),
  constant .false_ (.bool false)]

def keyPattern : Parse (Expr × Pattern) := do
  let key ← literalKey go <|> dotted
  let _ ← sym .colon
  let p ← go .pattern
  pure (key, p)

def spreadPattern : Parse String := do
  let _ ← sym .doubleStar
  captureTarget

def mappingPattern : Parse Pattern := firstOf [
  do let _ ← sym .lbrace
     let _ ← sym .rbrace
     pure (.mapping [] [] none),
  do let _ ← sym .lbrace
     let rest ← spreadPattern
     let _ ← opt (sym .comma)
     let _ ← sym .rbrace
     pure (.mapping [] [] (some rest)),
  do let _ ← sym .lbrace
     let items ← sepBy1 (keyPattern go) (sym .comma)
     let _ ← sym .comma
     let rest ← spreadPattern
     let _ ← opt (sym .comma)
     let _ ← sym .rbrace
     pure (.mapping (items.map Prod.fst) (items.map Prod.snd) (some rest)),
  do let items ← between .lbrace .rbrace (commaList (keyPattern go))
     pure (.mapping (items.map Prod.fst) (items.map Prod.snd) none)]

def namedPattern : Parse (String × Pattern) := do
  let t ← nameToken
  let _ ← sym .equal
  let p ← go .pattern
  pure (Token.ident t, p)

def namedPatterns : Parse (List (String × Pattern)) := sepBy1 (namedPattern go) (sym .comma)

def positionalPatterns : Parse (List Pattern) := sepBy1 (go .pattern) (sym .comma)

def badClassPattern : Parse Pattern := do
  let _ ← nameOrDotted
  let _ ← sym .lpar
  let _ ← opt (do let _ ← go .positionalPatterns; sym .comma)
  let _ ← namedPatterns go
  let _ ← sym .comma
  let t ← peek
  let _ ← go .positionalPatterns
  raiseAt t.span.line .positionalAfterNamed

def classPattern : Parse Pattern := firstOf [
  do let cls ← nameOrDotted
     let _ ← sym .lpar
     let _ ← sym .rpar
     pure (.classOf cls [] [] []),
  do let cls ← nameOrDotted
     let _ ← sym .lpar
     let ps ← go .positionalPatterns
     let _ ← opt (sym .comma)
     let _ ← sym .rpar
     pure (.classOf cls ps [] []),
  do let cls ← nameOrDotted
     let _ ← sym .lpar
     let named ← namedPatterns go
     let _ ← opt (sym .comma)
     let _ ← sym .rpar
     pure (.classOf cls [] (named.map Prod.fst) (named.map Prod.snd)),
  do let cls ← nameOrDotted
     let _ ← sym .lpar
     let ps ← go .positionalPatterns
     let _ ← sym .comma
     let named ← namedPatterns go
     let _ ← opt (sym .comma)
     let _ ← sym .rpar
     pure (.classOf cls ps (named.map Prod.fst) (named.map Prod.snd)),
  explaining (badClassPattern go)]

def closedPattern : Parse Pattern := firstOf [
  literalPattern go,
  do let name ← captureTarget; pure (.capture none (some name)),
  do let _ ← softWord "_"; pure (.capture none none),
  do let e ← dotted
     notReference
     pure (.value e),
  between .lpar .rpar (go .pattern),
  do let ps ← between .lsqb .rsqb (opt (go .maybeSequence))
     pure (.sequence (ps.getD [])),
  do let ps ← between .lpar .rpar (opt (go .openSequence))
     pure (.sequence (ps.getD [])),
  mappingPattern go,
  classPattern go]

end CodeMigration.Source.Grammar
