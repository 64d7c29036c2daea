import CodeMigration.Source.Lexer
import CodeMigration.Source.StringLiteral

/-! # Ordered choice over tokens

A parse tries the alternatives of a construct in order and takes the first that fits. It keeps the
farthest token that any alternative looked at, and what constructs gave at places where they were
tried before. A fault ends it at once. -/

namespace CodeMigration.Source.Grammar

structure Args where
  positional : List Expr
  keywords : List Keyword

/-- What the constructs of the grammar give. -/
inductive Phrase where
  | expr | exprs | args | clauses | params | stmt | stmts | pattern | patterns
  deriving DecidableEq

abbrev Phrase.Value : Phrase → Type
  | expr => Expr
  | exprs => List Expr
  | args => Args
  | clauses => List Clause
  | params => Params
  | stmt => Stmt
  | stmts => List Stmt
  | pattern => Pattern
  | patterns => List Pattern

/-- A place among the tokens, with the token before it and the last one before it that is no layout. -/
structure Cursor where
  rest : List Token
  last : Token
  solid : Token
  deriving Inhabited

/-- What the construct with number `rule` gave at some place. -/
structure Entry where
  rule : Nat
  phrase : Phrase
  value : Option (phrase.Value × Cursor)

/-- What stays when an alternative is given up: the farthest token looked at, and the results at each
token. -/
structure Work where
  far : Token
  memo : Array (List Entry)

/-- `explain` tries the constructs that only find a better explanation of a fault. `fragment` is set
for the expressions inside formatted strings. -/
structure Env where
  names : StringLiteral.Names
  explain : Bool
  fragment : Bool
  size : Nat
  stop : Option Stop

inductive Outcome (α : Type) where
  | hit (value : α) (cursor : Cursor) (work : Work)
  | miss (work : Work)
  /-- `lexical` tells the lexer's stop from other faults. -/
  | fault (fault : Fault) (lexical : Bool) (work : Work)

def Parse (α : Type) : Type := Env → Cursor → Work → Outcome α

namespace Parse

variable {α β : Type}

@[inline] protected def pure (a : α) : Parse α := fun _ c w => .hit a c w

@[inline] protected def bind (p : Parse α) (f : α → Parse β) : Parse β := fun e c w =>
  match p e c w with
  | .hit a c' w' => f a e c' w'
  | .miss w' => .miss w'
  | .fault x l w' => .fault x l w'

instance : Monad Parse where
  pure := Parse.pure
  bind := Parse.bind

def miss : Parse α := fun _ _ w => .miss w

@[inline] def orElse (p q : Parse α) : Parse α := fun e c w =>
  match p e c w with
  | .miss w' => q e c w'
  | r => r

instance : OrElse (Parse α) := ⟨fun p q => p.orElse (q ())⟩

def firstOf : List (Parse α) → Parse α
  | [] => miss
  | [p] => p
  | p :: ps => p.orElse (firstOf ps)

/-- If the first fits, only what it decides counts; else the other. -/
@[inline] def ifFits (p : Parse α) (f : α → Parse β) (q : Parse β) : Parse β := fun e c w =>
  match p e c w with
  | .hit a c' w' => f a e c' w'
  | .miss w' => q e c w'
  | .fault x l w' => .fault x l w'

def opt (p : Parse α) : Parse (Option α) := fun e c w =>
  match p e c w with
  | .hit a c' w' => .hit (some a) c' w'
  | .miss w' => .hit none c w'
  | .fault x l w' => .fault x l w'

def ahead (p : Parse α) : Parse Unit := fun e c w =>
  match p e c w with
  | .hit _ _ w' => .hit () c w'
  | .miss w' => .miss w'
  | .fault x l w' => .fault x l w'

def notAhead (p : Parse α) : Parse Unit := fun e c w =>
  match p e c w with
  | .hit _ _ w' => .miss w'
  | .miss w' => .hit () c w'
  | .fault x l w' => .fault x l w'

def manyUpTo (p : Parse α) : Nat → Parse (List α)
  | 0 => Parse.pure []
  | fuel + 1 => fun e c w =>
    match p e c w with
    | .hit a c' w' =>
      match manyUpTo p fuel e c' w' with
      | .hit as c'' w'' => .hit (a :: as) c'' w''
      | r => r
    | .miss w' => .hit [] c w'
    | .fault x l w' => .fault x l w'

/-- As often in a row as it fits; `p` passes over a token each time. -/
def many (p : Parse α) : Parse (List α) := fun e c w => manyUpTo p (e.size + 1) e c w

def many1 (p : Parse α) : Parse (List α) := do
  let a ← p
  let as ← many p
  pure (a :: as)

def sepBy1 (p : Parse α) (separator : Parse β) : Parse (List α) := do
  let a ← p
  let as ← many (do let _ ← separator; p)
  pure (a :: as)

/-- Extends what was read as often as `step` fits. -/
def extendUpTo (step : α → Parse α) : Nat → α → Parse α
  | 0, a => Parse.pure a
  | fuel + 1, a => fun e c w =>
    match step a e c w with
    | .hit a' c' w' => extendUpTo step fuel a' e c' w'
    | .miss w' => .hit a c w'
    | .fault x l w' => .fault x l w'

def extend (step : α → Parse α) (a : α) : Parse α := fun e c w => extendUpTo step (e.size + 1) a e c w

def charNames : Parse StringLiteral.Names := fun e c w => .hit e.names c w

/-- Only when explanations are looked for. -/
def explaining (p : Parse α) : Parse α := fun e c w => if e.explain then p e c w else .miss w

def quietly (p : Parse α) : Parse α := fun e c w => p { e with explain := false } c w

def place (e : Env) (cause : Cause) : Cause := if e.fragment then .inFString cause else cause

def raiseAt (line : Nat) (cause : Cause) : Parse α := fun e _ w =>
  .fault ⟨some line, place e cause⟩ false w

def raise (cause : Cause) : Parse α := fun e _ w =>
  .fault ⟨some w.far.span.line, place e cause⟩ false w

/-- The fault of coming to the end of the tokens: the lexer's own causes are told as they are. -/
def stopFault (e : Env) (s : Stop) : Fault :=
  match s.reason with
  | .fault _ => s.fault
  | _ => { s.fault with cause := place e s.fault.cause }

def peek : Parse Token := fun e c w =>
  match c.rest with
  | t :: _ => .hit t c (if w.far.index < t.index then { w with far := t } else w)
  | [] =>
    match e.stop with
    | some s => .fault (stopFault e s) true w
    | none => .miss w

def acceptIf (test : Token → Bool) : Parse Token := fun e c w =>
  match c.rest with
  | t :: rest =>
    let w := if w.far.index < t.index then { w with far := t } else w
    if test t then .hit t ⟨rest, t, if t.kind.isLayout then c.solid else t⟩ w else .miss w
  | [] =>
    match e.stop with
    | some s => .fault (stopFault e s) true w
    | none => .miss w

def accept (kind : Kind) : Parse Token := acceptIf (·.kind == kind)

def sym (s : Symbol) : Parse Token := accept (.symbol s)

def word (w : Word) : Parse Token := accept (.word w)

def between (opening closing : Symbol) (p : Parse α) : Parse α := do
  let _ ← sym opening
  let a ← p
  let _ ← sym closing
  pure a

def commaList (p : Parse α) : Parse (List α) := do
  let as ← sepBy1 p (sym .comma)
  let _ ← opt (sym .comma)
  pure as

def force (kind : Kind) (text : String) : Parse Token := do
  let t ← peek
  if t.kind == kind then accept kind else raiseAt t.span.line (.expected text)

/-- A name that is used as a word in one construct only. -/
def softWord (text : String) : Parse Token := acceptIf fun t => t.kind == .name && t.text == text

def lastToken : Parse Token := fun _ c w => .hit c.last c w

/-- Gives the place from the next token to the last one passed over. -/
def spanned (p : Parse (Span → α)) : Parse α := do
  let t ← peek
  let f ← p
  fun _ c w => .hit (f ⟨t.span.line, t.span.col, c.solid.span.endLine, c.solid.span.endCol⟩) c w

def spanFrom (t : Token) : Parse Span := fun _ c w =>
  .hit ⟨t.span.line, t.span.col, c.solid.span.endLine, c.solid.span.endCol⟩ c w

/-- The result of an earlier try of a construct, among those at one token. -/
def lookup (rule : Nat) (s : Phrase) : List Entry → Option (Option (s.Value × Cursor))
  | [] => none
  | entry :: rest =>
    if entry.rule == rule then
      if h : entry.phrase = s then some (h ▸ entry.value) else none
    else lookup rule s rest

def memoized (rule : Nat) (s : Phrase) (p : Parse s.Value) : Parse s.Value := do
  let t ← peek
  fun e c w =>
    match lookup rule s (w.memo[t.index]?.getD []) with
    | some (some (a, c')) => .hit a c' w
    | some none => .miss w
    | none =>
      let record (w : Work) (value : Option (s.Value × Cursor)) : Work :=
        { w with memo := w.memo.modify t.index (⟨rule, s, value⟩ :: ·) }
      match p e c w with
      | .hit a c' w' => .hit a c' (record w' (some (a, c')))
      | .miss w' => .miss (record w' none)
      | .fault x l w' => .fault x l w'

end Parse

/-- The fault that is told: a stop of the lexer further on takes the place of any other fault. -/
def settle (stop : Option Stop) (fault : Fault) (lexical : Bool) (far : Token) : Fault :=
  if lexical then fault
  else (stop.bind (·.overriding? far.span.line)).getD fault

/-- Reads tokens by a construct. What does not fit is read again with explanations; if they find
nothing, the farthest token of the first pass is to blame. -/
def parseTokens {α : Type} (names : StringLiteral.Names) (fragment : Bool) (tokens : Tokens)
    (start : Parse α) : Except Fault α :=
  let size := tokens.list.length
  let cursor : Cursor := ⟨tokens.list, default, default⟩
  let fresh : Array (List Entry) := Array.replicate (size + 1) []
  let env : Env := ⟨names, false, fragment, size, tokens.stop⟩
  let far := tokens.list.headD default
  match start env cursor ⟨far, fresh⟩ with
  | .hit a _ _ => .ok a
  | .fault x lexical w => .error (settle tokens.stop x lexical w.far)
  | .miss w =>
    let blamed := w.far
    match start { env with explain := true } cursor ⟨w.far, fresh⟩ with
    | .fault x lexical w' => .error (settle tokens.stop x lexical w'.far)
    | .hit _ _ w' | .miss w' =>
      match blamed.kind with
      | .indent => .error ⟨some w'.far.span.line, Parse.place env .unexpectedIndent⟩
      | .dedent => .error ⟨some w'.far.span.line, Parse.place env .unexpectedUnindent⟩
      | _ =>
        .error (settle tokens.stop ⟨some blamed.span.line, Parse.place env .invalidSyntax⟩ false w'.far)

end CodeMigration.Source.Grammar
