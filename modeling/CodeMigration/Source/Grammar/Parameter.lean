import CodeMigration.Source.Grammar.Expression

/-! # Parameters of functions and lambdas

Both take the same shapes; only those of functions have annotations and stand in parentheses. -/

namespace CodeMigration.Source.Grammar

open Parse

variable (go : Go) (ofLambda : Bool)

def paramsEnd : Symbol := if ofLambda then .colon else .rpar

def hint : Parse (Option Expr) :=
  if ofLambda then pure none else opt (do let _ ← sym .colon; go .expression)

def bareParam : Parse Param := do
  let t ← nameToken
  let a ← hint go ofLambda
  pure (.mk (Token.ident t) a none)

def paramEnd : Parse Unit :=
  (do let _ ← sym .comma; pure ()) <|> ahead (sym (paramsEnd ofLambda))

def paramNoDefault : Parse Param := do
  let p ← bareParam go ofLambda
  paramEnd ofLambda
  pure p

/-- A parameter whose annotation may be starred. -/
def paramStarHint : Parse Param := do
  let t ← nameToken
  let _ ← sym .colon
  let a ← go .starExpression
  paramEnd ofLambda
  pure (.mk (Token.ident t) (some a) none)

def defaultValue : Parse Expr :=
  (do let _ ← sym .equal; go .expression) <|>
    explaining (do
      let t ← sym .equal
      ahead (sym (paramsEnd ofLambda) <|> sym .comma)
      raiseAt t.span.line .expectedDefault)

def Param.setDefault : Param → Option Expr → Param
  | .mk name a _, d => .mk name a d

def paramWithDefault : Parse Param := do
  let p ← bareParam go ofLambda
  let d ← defaultValue go ofLambda
  paramEnd ofLambda
  pure (Param.setDefault p (some d))

def paramMaybeDefault : Parse Param := do
  let p ← bareParam go ofLambda
  let d ← opt (defaultValue go ofLambda)
  paramEnd ofLambda
  pure (Param.setDefault p d)

def slash : Parse Unit := do
  let _ ← sym .slash
  paramEnd ofLambda

def slashNoDefault : Parse (List Param) := do
  let ps ← many1 (paramNoDefault go ofLambda)
  slash ofLambda
  pure ps

def slashWithDefault : Parse (List Param) := do
  let ps ← many (paramNoDefault go ofLambda)
  let qs ← many1 (paramWithDefault go ofLambda)
  slash ofLambda
  pure (ps ++ qs)

/-- What follows the plain parameters: `*rest`, keyword only, `**keywords`. -/
structure StarEtc where
  rest : Option Param
  keywordOnly : List Param
  keywords : Option Param

def badKeywords : Parse Param := firstOf [
  do let _ ← sym .doubleStar
     let _ ← bareParam go ofLambda
     let t ← sym .equal
     raiseAt t.span.line .defaultOfKeywords,
  do let _ ← sym .doubleStar
     let _ ← bareParam go ofLambda
     let _ ← sym .comma
     let t ← peek
     let _ ← bareParam go ofLambda
     raiseAt t.span.line .afterKeywords,
  do let _ ← sym .doubleStar
     let _ ← bareParam go ofLambda
     let _ ← sym .comma
     let t ← firstOf [sym .star, sym .doubleStar, sym .slash]
     raiseAt t.span.line .afterKeywords]

def keywordsParam : Parse Param :=
  explaining (badKeywords go ofLambda) <|>
    (do let _ ← sym .doubleStar; paramNoDefault go ofLambda)

def badStarEtc : Parse StarEtc := firstOf [
  do let t ← sym .star
     let _ ← sym (paramsEnd ofLambda) <|>
       (do let _ ← sym .comma; sym (paramsEnd ofLambda) <|> sym .doubleStar)
     if ofLambda then raise .nothingAfterStar else raiseAt t.span.line .nothingAfterStar,
  do let _ ← sym .star
     let _ ← bareParam go ofLambda
     let t ← sym .equal
     raiseAt t.span.line .defaultOfRest,
  do let _ ← sym .star
     let nameOrComma : Parse Unit := (do let _ ← paramNoDefault go ofLambda; pure ()) <|>
       (do let _ ← sym .comma; pure ())
     nameOrComma
     let _ ← many (paramMaybeDefault go ofLambda)
     let t ← sym .star
     nameOrComma
     raiseAt t.span.line .starTwice]

def starEtc : Parse StarEtc := firstOf [
  explaining (badStarEtc go ofLambda),
  do let _ ← sym .star
     let p ← paramNoDefault go ofLambda
     let ps ← many (paramMaybeDefault go ofLambda)
     let k ← opt (keywordsParam go ofLambda)
     pure ⟨some p, ps, k⟩,
  do if ofLambda then miss
     let _ ← sym .star
     let p ← paramStarHint go ofLambda
     let ps ← many (paramMaybeDefault go ofLambda)
     let k ← opt (keywordsParam go ofLambda)
     pure ⟨some p, ps, k⟩,
  do let _ ← sym .star
     let _ ← sym .comma
     let ps ← many1 (paramMaybeDefault go ofLambda)
     let k ← opt (keywordsParam go ofLambda)
     pure ⟨none, ps, k⟩,
  do let k ← keywordsParam go ofLambda
     pure ⟨none, [], some k⟩]

def makeParams (positional plain : List Param) (star : Option StarEtc) : Params :=
  match star with
  | some s => .mk positional plain s.rest s.keywordOnly s.keywords
  | none => .mk positional plain none [] none

def parameters : Parse Params := firstOf [
  do let a ← slashNoDefault go ofLambda
     let b ← many (paramNoDefault go ofLambda)
     let c ← many (paramWithDefault go ofLambda)
     let d ← opt (starEtc go ofLambda)
     pure (makeParams a (b ++ c) d),
  do let a ← slashWithDefault go ofLambda
     let b ← many (paramWithDefault go ofLambda)
     let d ← opt (starEtc go ofLambda)
     pure (makeParams a b d),
  do let a ← many1 (paramNoDefault go ofLambda)
     let b ← many (paramWithDefault go ofLambda)
     let d ← opt (starEtc go ofLambda)
     pure (makeParams [] (a ++ b) d),
  do let a ← many1 (paramWithDefault go ofLambda)
     let d ← opt (starEtc go ofLambda)
     pure (makeParams [] a d),
  do let d ← starEtc go ofLambda
     pure (makeParams [] [] (some d))]

def badParameters : Parse Params := firstOf [
  do let _ ← many (paramNoDefault go ofLambda)
     let _ ← slashWithDefault go ofLambda <|> many1 (paramWithDefault go ofLambda)
     let t ← peek
     let _ ← paramNoDefault go ofLambda
     raiseAt t.span.line .nonDefaultAfterDefault,
  do let _ ← many (paramNoDefault go ofLambda)
     let t ← sym .lpar
     if ofLambda then
       let _ ← sepBy1 (bareParam go ofLambda) (sym .comma)
       let _ ← opt (sym .comma)
     else
       let _ ← many1 (paramNoDefault go ofLambda)
       let _ ← opt (sym .comma)
     let _ ← sym .rpar
     raiseAt t.span.line (.parameterParentheses ofLambda),
  do let t ← sym .slash
     let _ ← sym .comma
     raiseAt t.span.line .slashFirst,
  do let _ ← slashNoDefault go ofLambda <|> slashWithDefault go ofLambda
     let _ ← many (paramMaybeDefault go ofLambda)
     let t ← sym .slash
     raiseAt t.span.line .slashTwice,
  do let _ ← opt (slashNoDefault go ofLambda <|> slashWithDefault go ofLambda)
     let _ ← many (paramMaybeDefault go ofLambda)
     let _ ← sym .star
     (do let _ ← sym .comma; pure ()) <|> (do let _ ← paramNoDefault go ofLambda; pure ())
     let _ ← many (paramMaybeDefault go ofLambda)
     let t ← sym .slash
     raiseAt t.span.line .slashAfterStar,
  do let _ ← many1 (paramMaybeDefault go ofLambda)
     let _ ← sym .slash
     let t ← sym .star
     raiseAt t.span.line .commaBeforeStar]

def params : Parse Params := explaining (badParameters go ofLambda) <|> parameters go ofLambda

end CodeMigration.Source.Grammar
