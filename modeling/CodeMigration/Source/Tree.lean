import CodeMigration.Decimal.Binary64

/-! # Syntax trees

Expressions, patterns and statements of a module, each with the place where it stands. -/

namespace CodeMigration.Source

open CodeMigration.Decimal (Binary64)

/-- Where a node stands: lines from one, columns in bytes of UTF-8 from zero, the end excluded. -/
structure Span where
  line : Nat
  col : Nat
  endLine : Nat
  endCol : Nat
  deriving DecidableEq, Inhabited

/-- The place of a node that was not read from a text. -/
def Span.unknown : Span := ⟨1, 0, 1, 0⟩

/-- A constant. Text is kept as code points, since an escape can name one that is no character. -/
inductive Literal where
  | null
  | bool (value : Bool)
  | ellipsis
  | int (value : Nat)
  | float (value : Binary64)
  | imaginary (value : Binary64)
  | text (points : List Nat) (marked : Bool)
  | bytes (values : List Nat)

inductive UnaryOp where
  | invert | not | plus | minus

inductive BinaryOp where
  | add | sub | mul | matMul | div | mod | leftShift | rightShift | bitOr | bitXor | bitAnd | floorDiv | pow
  deriving DecidableEq

inductive LogicalOp where
  | and | or

inductive CompareOp where
  | eq | notEq | lt | ltE | gt | gtE | is | isNot | inside | notInside
  deriving DecidableEq

inductive DisplayKind where
  | list | tuple | set

inductive ComprehensionKind where
  | list | set | generator

mutual

inductive Expr where
  | name (span : Span) (id : String)
  | literal (span : Span) (value : Literal)
  | member (span : Span) (value : Expr) (attr : String)
  /-- A member named by bytes. No text has one; an edit can make one, and it cannot be printed. -/
  | byteMember (span : Span) (value : Expr) (attr : List Nat)
  | subscript (span : Span) (value index : Expr)
  | slice (span : Span) (lower upper step : Option Expr)
  | starred (span : Span) (value : Expr)
  | call (span : Span) (func : Expr) (args : List Expr) (keywords : List Keyword)
  | unary (span : Span) (op : UnaryOp) (operand : Expr)
  | binary (span : Span) (op : BinaryOp) (left right : Expr)
  | logical (span : Span) (op : LogicalOp) (values : List Expr)
  | compare (span : Span) (left : Expr) (ops : List CompareOp) (rights : List Expr)
  | conditional (span : Span) (test body orelse : Expr)
  | lambda (span : Span) (params : Params) (body : Expr)
  | walrus (span : Span) (target value : Expr)
  | await (span : Span) (value : Expr)
  | yield (span : Span) (value : Option Expr)
  | yieldFrom (span : Span) (value : Expr)
  | display (span : Span) (kind : DisplayKind) (items : List Expr)
  | dict (span : Span) (items : List DictItem)
  | comprehension (span : Span) (kind : ComprehensionKind) (element : Expr) (clauses : List Clause)
  | dictComprehension (span : Span) (key value : Expr) (clauses : List Clause)
  | fstring (span : Span) (parts : List Expr)
  | formatted (span : Span) (value : Expr) (conversion : Option Char) (spec : Option Expr)

/-- `name=value`, or `**value` without a name. -/
inductive Keyword where
  | mk (name : Option String) (value : Expr)

inductive DictItem where
  | pair (key value : Expr)
  | spread (value : Expr)

/-- `for target in iter if condition ...` of a comprehension. -/
inductive Clause where
  | mk (async : Bool) (target iter : Expr) (conditions : List Expr)

inductive Param where
  | mk (name : String) (hint default : Option Expr)

/-- Parameters: positional only, plain, `*rest`, keyword only, `**keywords`. -/
inductive Params where
  | mk (positional plain : List Param) (rest : Option Param) (keywordOnly : List Param) (keywords : Option Param)

end

instance : Inhabited Expr := ⟨.name .unknown ""⟩
instance : Inhabited Params := ⟨.mk [] [] none [] none⟩

inductive Pattern where
  | value (value : Expr)
  | singleton (value : Literal)
  | sequence (items : List Pattern)
  | mapping (keys : List Expr) (items : List Pattern) (rest : Option String)
  | classOf (cls : Expr) (items : List Pattern) (names : List String) (named : List Pattern)
  | star (name : Option String)
  | capture (pattern : Option Pattern) (name : Option String)
  | anyOf (choices : List Pattern)

instance : Inhabited Pattern := ⟨.star none⟩

/-- `name as alias` of an import. -/
structure Alias where
  name : String
  asName : Option String
  deriving DecidableEq

/-- `context as target` of a `with`. -/
structure WithItem where
  context : Expr
  target : Option Expr

mutual

inductive Stmt where
  | expr (span : Span) (value : Expr)
  | assign (span : Span) (targets : List Expr) (value : Expr)
  | augAssign (span : Span) (target : Expr) (op : BinaryOp) (value : Expr)
  /-- `simple` tells a plain name from a name in parentheses. -/
  | annAssign (span : Span) (target hint : Expr) (value : Option Expr) (simple : Bool)
  | ret (span : Span) (value : Option Expr)
  | delete (span : Span) (targets : List Expr)
  | assert (span : Span) (test : Expr) (message : Option Expr)
  | raise (span : Span) (exc cause : Option Expr)
  | pass (span : Span)
  | breakLoop (span : Span)
  | continueLoop (span : Span)
  | global (span : Span) (names : List String)
  | nonlocal (span : Span) (names : List String)
  | importModules (span : Span) (names : List Alias)
  | importFrom (span : Span) (source : Option String) (names : List Alias) (level : Nat)
  | functionDef (span : Span) (async : Bool) (name : String) (params : Params) (body : List Stmt)
      (decorators : List Expr) (returns : Option Expr)
  | classDef (span : Span) (name : String) (bases : List Expr) (keywords : List Keyword) (body : List Stmt)
      (decorators : List Expr)
  | ifElse (span : Span) (test : Expr) (body orelse : List Stmt)
  | whileLoop (span : Span) (test : Expr) (body orelse : List Stmt)
  | forLoop (span : Span) (async : Bool) (target iter : Expr) (body orelse : List Stmt)
  | withBlock (span : Span) (async : Bool) (items : List WithItem) (body : List Stmt)
  | tryBlock (span : Span) (star : Bool) (body : List Stmt) (handlers : List Handler) (orelse cleanup : List Stmt)
  | matchCases (span : Span) (subject : Expr) (cases : List Case)

/-- `except type as name: body`. -/
inductive Handler where
  | mk (span : Span) (type : Option Expr) (name : Option String) (body : List Stmt)

inductive Case where
  | mk (pattern : Pattern) (guard : Option Expr) (body : List Stmt)

end

instance : Inhabited Stmt := ⟨.pass .unknown⟩

structure Module where
  body : List Stmt

end CodeMigration.Source
