import CodeMigration.Source.Grammar.Rule

/-! # String literals and formatted strings

Adjacent literals are one. In a formatted string the text between braces is read as an expression of
its own, at the place where it stands. -/

namespace CodeMigration.Source.Grammar

open Parse

inductive Piece where
  | points (ns : List Nat)
  | value (e : Expr)

/-- How the literal text of a formatted string ends: at a doubled brace, of which one belongs to the
text, or at a brace or the end, or at a closing brace that has no opening one. -/
inductive LiteralEnd where
  | doubled (text rest : List Char)
  | plain (text rest : List Char)
  | lone

/-- The literal text up to the next brace that counts. `read` is in reverse. Braces are doubled at the
top level only; those of an escape by name do not count. -/
def literalPart (raw top : Bool) (read : List Char) : List Char → LiteralEnd
  | [] => .plain read.reverse []
  | '\\' :: 'N' :: '{' :: rest =>
    if raw then brace '{' ('N' :: '\\' :: read) rest
    else named raw top ('{' :: 'N' :: '\\' :: read) rest
  | '\\' :: 'N' :: c :: rest =>
    if raw then
      if c == '}' then brace '}' ('N' :: '\\' :: read) rest
      else literalPart raw top (c :: 'N' :: '\\' :: read) rest
    else literalPart raw top (c :: 'N' :: '\\' :: read) rest
  | '\\' :: '{' :: rest => brace '{' ('\\' :: read) rest
  | '\\' :: '}' :: rest => brace '}' ('\\' :: read) rest
  | '\\' :: '\\' :: rest =>
    if raw then
      match rest with
      | '{' :: more => brace '{' ('\\' :: '\\' :: read) more
      | '}' :: more => brace '}' ('\\' :: '\\' :: read) more
      | rest => literalPart raw top ('\\' :: '\\' :: read) rest
    else literalPart raw top ('\\' :: '\\' :: read) rest
  | '{' :: rest => brace '{' read rest
  | '}' :: rest => brace '}' read rest
  | c :: rest => literalPart raw top (c :: read) rest
where
  /-- At a brace. -/
  brace (c : Char) (read rest : List Char) : LiteralEnd :=
    if top then
      match rest with
      | c' :: more =>
        if c == c' then .doubled (c :: read).reverse more
        else if c == '}' then .lone else .plain read.reverse (c :: rest)
      | [] => if c == '}' then .lone else .plain read.reverse [c]
    else .plain read.reverse (c :: rest)
  /-- Inside the braces of an escape by name. -/
  named (raw top : Bool) (read : List Char) : List Char → LiteralEnd
    | [] => .plain read.reverse []
    | '}' :: rest => literalPart raw top ('}' :: read) rest
    | c :: rest => named raw top (c :: read) rest

/-- The text of an expression between braces, in reverse behind `read`, up to the character that
ends it. `quote` is the open quote and whether it is tripled; `open_` are the open brackets. -/
def expressionPart (quote : Option (Char × Bool)) (open_ : List Char) (read : List Char) :
    List Char → Except Cause (List Char × List Char)
  | [] =>
    if quote.isSome then .error (.fstring "unterminated string")
    else match open_ with
      | c :: _ => .error (.fstring ("unmatched " ++ quoteChar c))
      | [] => .error (.fstring "expecting '\x7d'")
  | '\\' :: _ => .error (.fstringPart "cannot include a backslash")
  | c :: rest =>
    match quote with
    | some (q, triple) =>
      if c != q then expressionPart quote open_ (c :: read) rest
      else if triple then
        match rest with
        | c1 :: c2 :: more =>
          if c1 == q && c2 == q then expressionPart none open_ (c2 :: c1 :: c :: read) more
          else expressionPart quote open_ (c :: read) (c1 :: c2 :: more)
        | rest => expressionPart quote open_ (c :: read) rest
      else expressionPart none open_ (c :: read) rest
    | none =>
      if c == '\'' || c == '"' then
        match rest with
        | c1 :: c2 :: more =>
          if c1 == c && c2 == c then expressionPart (some (c, true)) open_ (c2 :: c1 :: c :: read) more
          else expressionPart (some (c, false)) open_ (c :: read) (c1 :: c2 :: more)
        | rest => expressionPart (some (c, false)) open_ (c :: read) rest
      else if c == '(' || c == '[' || c == '{' then
        if maxBrackets ≤ open_.length then .error (.fstring "too many nested parenthesis")
        else expressionPart none (c :: open_) (c :: read) rest
      else if c == '#' then .error (.fstringPart "cannot include '#'")
      else if open_.isEmpty && (c == '!' || c == ':' || c == '}' || c == '=' || c == '<' || c == '>') then
        match rest with
        | '=' :: more =>
          if c == '!' || c == '=' || c == '<' || c == '>' then expressionPart none open_ ('=' :: c :: read) more
          else .ok (read.reverse, c :: '=' :: more)
        | rest =>
          if c == '<' || c == '>' then expressionPart none open_ (c :: read) rest
          else .ok (read.reverse, c :: rest)
      else if c == ')' || c == ']' || c == '}' then
        match open_ with
        | [] => .error (.fstring ("unmatched " ++ quoteChar c))
        | o :: outer =>
          if (o == '(' && c == ')') || (o == '[' && c == ']') || (o == '{' && c == '}') then
            expressionPart none outer (c :: read) rest
          else .error (.fstring ("closing parenthesis " ++ quoteChar c ++
            " does not match opening parenthesis " ++ quoteChar o))
      else expressionPart none open_ (c :: read) rest

def isFormatBlank (c : Char) : Bool := c == ' ' || c == '\t' || c == '\n' || c == '\x0c'

def isFormatSpace (c : Char) : Bool := isFormatBlank c || c == '\r' || c == '\x0b'

/-- The line and column from which the expression behind an opening brace is read: `before` is the
token's text up to the brace. -/
def expressionPlace (token : Token) (before text : List Char) : Nat × Nat :=
  let lines := before.count '\n'
  let bytes (cs : List Char) : Nat := cs.foldl (fun n c => n + c.utf8Size) 0
  let col := bytes (before.reverse.takeWhile (· != '\n'))
  let col := if (text.dropWhile (fun c => c == ' ' || c == '\t' || c == '\x0c')).head?.all
      (fun c => c == '\n' || c == '\x7d') then 0 else col
  (token.span.line + lines, if lines == 0 then token.span.col + col else col)

variable (go : Go)

def fragment (token : Token) (before text : List Char) (ending : Char) : Parse Expr :=
  if text.all isFormatBlank then
    raise (.fstring (if ending == '!' || ending == ':' || ending == '='
      then "expression required before " ++ quoteChar ending else "empty expression not allowed"))
  else do
    let names ← Parse.charNames
    let (line, col) := expressionPlace token before text
    match parseTokens names true (lexFrom line col ('(' :: text ++ [')', '\n'])) (go .starExpressions) with
    | .ok e => pure e
    | .error fault => fun _ _ w => .fault fault false w

def liftCause {α : Type} : Except Cause α → Parse α
  | .ok a => pure a
  | .error cause => raise cause

def literalValue (bytes raw : Bool) (body : List Char) : Parse (List Nat) := do
  liftCause (StringLiteral.value (← Parse.charNames) bytes raw body)

/-- What stands behind the expression: its own text if `=` asks for it, a conversion, and what is left. -/
structure Tail where
  shown : Option (List Char)
  conversion : Option Char
  rest : List Char

/-- The text of an expression if `=` asks for it, and what is left. -/
def shownPart (text rest : List Char) : Option (List Char) × List Char :=
  match rest with
  | '=' :: more => (some (text ++ '=' :: more.takeWhile isFormatSpace), more.dropWhile isFormatSpace)
  | rest => (none, rest)

def conversionPart (text : List Char) (rest : List Char) : Except Cause Tail :=
  let expecting : Cause := .fstring "expecting '\x7d'"
  let (shown, rest) := shownPart text rest
  match rest with
  | '!' :: c :: more =>
    if c == 's' || c == 'r' || c == 'a' then .ok ⟨shown, some c, more⟩
    else .error (.fstring "invalid conversion character: expected 's', 'r', or 'a'")
  | ['!'] => .error expecting
  | [] => .error expecting
  | rest => .ok ⟨shown, none, rest⟩

def joinPieces : List Piece → List Piece
  | [] => []
  | .points [] :: rest => joinPieces rest
  | .points ns :: rest =>
    match joinPieces rest with
    | .points ms :: more => .points (ns ++ ms) :: more
    | more => .points ns :: more
  | .value e :: rest => .value e :: joinPieces rest

def Piece.toExpr (span : Span) (marked : Bool) : Piece → Expr
  | .points ns => .literal span (.text ns marked)
  | .value e => e

def formatSpec (span : Span) (marked : Bool) (pieces : List Char → Parse (List Piece × List Char)) :
    List Char → Parse (Option Expr × List Char)
  | [':'] => raise (.fstring "expecting '\x7d'")
  | ':' :: more => do
    let (ps, left) ← pieces more
    if left.isEmpty then raise (.fstring "expecting '\x7d'")
    else pure (some (.fstring span ((joinPieces ps).map (Piece.toExpr span marked))), left)
  | rest => pure (none, rest)

/-- The end of a value and the pieces behind it. Without a format and a conversion, a value that is to be shown with
its text is shown as it is represented. -/
def formatValue (span : Span) (value : Expr) (tail : Tail) (spec : Option Expr)
    (pieces : List Char → Parse (List Piece × List Char)) : List Char → Parse (List Piece × List Char)
  | '}' :: rest => do
    let conversion := if tail.shown.isSome && spec.isNone && tail.conversion.isNone
      then some 'r' else tail.conversion
    let shown := (tail.shown.getD []).map Char.toNat
    let (ps, left) ← pieces rest
    pure (.points shown :: .value (.formatted span value conversion spec) :: ps, left)
  | _ => raise (.fstring "expecting '\x7d'")

/-- The pieces of a formatted string, and what is left where a nested format ends. `level` counts the
nestings of formats. -/
def formatPieces (token : Token) (span : Span) (marked raw : Bool) (parts : StringLiteral.Parts) :
    Nat → Nat → List Char → Parse (List Piece × List Char)
  | 0, _, rest => pure ([], rest)
  | fuel + 1, level, rest =>
    match literalPart raw (level == 0) [] rest with
    | .lone => raise (.fstring "single '\x7d' is not allowed")
    | .doubled text more => do
      let ns ← literalValue false raw text
      let (pieces, left) ← formatPieces token span marked raw parts fuel level more
      pure (.points ns :: pieces, left)
    | .plain text more => do
      let ns ← literalValue false raw text
      match more with
      | '{' :: inner =>
        if 2 ≤ level then raise (.fstring "expressions nested too deeply")
        else
          let (exprText, ended) ← liftCause (expressionPart none [] [] inner)
          let at_ := parts.start + (parts.body.length - more.length)
          let value ← fragment go token (token.text.toList.take at_) exprText (ended.headD '\x7d')
          let tail ← liftCause (conversionPart exprText ended)
          let (spec, rest) ← formatSpec span marked (formatPieces token span marked raw parts fuel (level + 1)) tail.rest
          let (pieces, left) ← formatValue span value tail spec (formatPieces token span marked raw parts fuel level) rest
          pure (.points ns :: pieces, left)
      | more => pure ([.points ns], more)

/-- The values of adjacent literals so far: bytes, or pieces of text with whether a format is among them. -/
inductive Joined where
  | bytes (values : List Nat)
  | text (pieces : List Piece) (format : Bool)

def Joined.text? : Option Joined → Option (List Piece × Bool)
  | none => some ([], false)
  | some (.text pieces format) => some (pieces, format)
  | some (.bytes _) => none

def joinLiteral (span : Span) (marked : Bool) (sofar : Option Joined) (token : Token) : Parse Joined :=
  let parts := StringLiteral.split token.text.toList
  let raw := parts.raw
  if parts.bytes then
    if parts.body.any (fun c => 128 ≤ c.toNat) then raiseAt token.span.line .nonAsciiBytes
    else do
      let values ← literalValue true raw parts.body
      match sofar with
      | none => pure (.bytes values)
      | some (.bytes before) => pure (.bytes (before ++ values))
      | some (.text ..) => raise .mixedBytes
  else if parts.format then
    match Joined.text? sofar with
    | none => raise .mixedBytes
    | some (before, _) => do
      let (pieces, _) ← formatPieces go token span marked raw parts (parts.body.length + 2) 0 parts.body
      pure (.text (before ++ pieces) true)
  else do
    let plain ← literalValue false raw parts.body
    match Joined.text? sofar with
    | none => raise .mixedBytes
    | some (before, format) => pure (.text (before ++ [.points plain]) format)

def joinLiterals (span : Span) (marked : Bool) : Option Joined → List Token → Parse (Option Joined)
  | sofar, [] => pure sofar
  | sofar, t :: rest => do
    let joined ← joinLiteral go span marked sofar t
    joinLiterals span marked (some joined) rest

def strings : Parse Expr := do
  let start ← peek
  let tokens ← many1 (accept .string)
  let span ← spanFrom start
  let marked := tokens.head?.any fun t => t.text.toList.head? == some 'u'
  match ← joinLiterals go span marked none tokens with
  | some (.bytes values) => pure (.literal span (.bytes values))
  | some (.text pieces true) => pure (.fstring span ((joinPieces pieces).map (Piece.toExpr span marked)))
  | some (.text pieces false) =>
    match joinPieces pieces with
    | [.points ns] => pure (.literal span (.text ns marked))
    | _ => pure (.literal span (.text [] marked))
  | none => miss

end CodeMigration.Source.Grammar
