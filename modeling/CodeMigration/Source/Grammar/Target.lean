import CodeMigration.Source.Grammar.Expression

/-! # Targets of assignments, loops and deletions -/

namespace CodeMigration.Source.Grammar

open Parse

variable (go : Go)

def trailerAhead : Parse Unit := ahead (firstOf [sym .lpar, sym .lsqb, sym .dot])

def noTrailerAhead : Parse Unit := notAhead (firstOf [sym .lpar, sym .lsqb, sym .dot])

/-- An expression that another trailer follows. -/
def targetPrimary : Parse Expr := do
  let start ← peek
  let e ← go .atom
  trailerAhead
  extend (trailer go trailerAhead start) e

/-- A member or an element, with nothing behind it. -/
def singleSubscript : Parse Expr :=
  (spanned do
    let e ← go .targetPrimary
    let _ ← sym .dot
    let t ← nameToken
    noTrailerAhead
    pure fun s => .member s e (Token.ident t)) <|>
  (spanned do
    let e ← go .targetPrimary
    let index ← between .lsqb .rsqb (go .slices)
    noTrailerAhead
    pure fun s => .subscript s e index)

def singleTarget : Parse Expr :=
  firstOf [go .singleSubscript, nameExpr, between .lpar .rpar (go .singleTarget)]

def starTargets : Parse Expr :=
  (do let e ← go .starTarget
      notAhead (sym .comma)
      pure e) <|>
    (spanned do
      let es ← commaList (go .starTarget)
      pure fun s => .display s .tuple es)

def starTarget : Parse Expr :=
  (spanned do
    let _ ← sym .star
    notAhead (sym .star)
    let e ← go .starTarget
    pure fun s => .starred s e) <|> go .starTargetAtom

def targetTupleItems : Parse (List Expr) :=
  (do let e ← go .starTarget
      let es ← many1 (do let _ ← sym .comma; go .starTarget)
      let _ ← opt (sym .comma)
      pure (e :: es)) <|>
    (do let e ← go .starTarget
        let _ ← sym .comma
        pure [e])

def starAtom : Parse Expr := firstOf [
  nameExpr,
  between .lpar .rpar (go .starTargetAtom),
  bracketed .tuple .lpar .rpar (targetTupleItems go),
  bracketed .list .lsqb .rsqb (commaList (go .starTarget))]

def starTargetAtom : Parse Expr := go .singleSubscript <|> starAtom go

def delTargets : Parse (List Expr) := commaList (go .delTarget)

def delTarget : Parse Expr := firstOf [
  go .singleSubscript,
  nameExpr,
  between .lpar .rpar (go .delTarget),
  bracketed .tuple .lpar .rpar (go .delTargets),
  bracketed .list .lsqb .rsqb (go .delTargets)]

/-- A list or a tuple where an annotation follows. -/
def annotatedBad : Parse Expr := firstOf [go .list, go .tuple, between .lpar .rpar (go .annotatedBad)]

end CodeMigration.Source.Grammar
