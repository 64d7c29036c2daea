import CodeMigration.Source.Printer.Literal

/-! # Printed expressions

Every operator has a level; an operand that binds looser than its place asks for stands in
parentheses. -/

namespace CodeMigration.Source.Printer

open CodeMigration.Text (ofPoints toPoints)

inductive Chunk where
  | text (s : String)
  | bytes

abbrev Written : Type := Except PrintFault (List Chunk)

def write (s : String) : Written := .ok [.text s]

def nothing : Written := .ok []

def cat : List Written → Written
  | [] => .ok []
  | w :: ws => do
    let a ← w
    let b ← cat ws
    pure (a ++ b)

/-- The text of chunks behind what was `read`; the chunk that is bytes is counted from zero. -/
def textFrom (read : String) (count : Nat) : List Chunk → Except PrintFault String
  | [] => .ok read
  | .text s :: rest => textFrom (read ++ s) (count + 1) rest
  | .bytes :: _ => .error (.bytesMember count)

def Written.toText (w : Written) : Except PrintFault String := do textFrom "" 0 (← w)

def commas : List Written → List Written
  | [] => []
  | [w] => [w]
  | w :: ws => w :: write ", " :: commas ws

/-- A single item has a comma behind it. -/
def tupleItems : List Written → List Written
  | [w] => [w, write ","]
  | ws => commas ws

namespace Level

def namedExpr : Nat := 1
def tuple : Nat := 2
def yield : Nat := 3
def test : Nat := 4
def or : Nat := 5
def and : Nat := 6
def not : Nat := 7
def compare : Nat := 8
def bitOr : Nat := 9
def bitXor : Nat := 10
def bitAnd : Nat := 11
def shift : Nat := 12
def arith : Nat := 13
def term : Nat := 14
def factor : Nat := 15
def power : Nat := 16
def await : Nat := 17
def atom : Nat := 18

def next (level : Nat) : Nat := min (level + 1) atom

end Level

/-- In parentheses where the place is tighter than the operator. -/
def parenthesize (place own : Nat) (ws : List Written) : Written :=
  if own < place then cat (write "(" :: ws ++ [write ")"]) else cat ws

def unaryText : UnaryOp → String × Nat
  | .invert => ("~", Level.factor)
  | .not => ("not", Level.not)
  | .plus => ("+", Level.factor)
  | .minus => ("-", Level.factor)

def binaryText : BinaryOp → String × Nat
  | .add => ("+", Level.arith)
  | .sub => ("-", Level.arith)
  | .mul => ("*", Level.term)
  | .matMul => ("@", Level.term)
  | .div => ("/", Level.term)
  | .mod => ("%", Level.term)
  | .leftShift => ("<<", Level.shift)
  | .rightShift => (">>", Level.shift)
  | .bitOr => ("|", Level.bitOr)
  | .bitXor => ("^", Level.bitXor)
  | .bitAnd => ("&", Level.bitAnd)
  | .floorDiv => ("//", Level.term)
  | .pow => ("**", Level.power)

def logicalText : LogicalOp → String × Nat
  | .and => ("and", Level.and)
  | .or => ("or", Level.or)

def compareText : CompareOp → String
  | .eq => "=="
  | .notEq => "!="
  | .lt => "<"
  | .ltE => "<="
  | .gt => ">"
  | .gtE => ">="
  | .is => "is"
  | .isNot => "is not"
  | .inside => "in"
  | .notInside => "not in"

/-- Whether a literal is an integer, to whose digits a dot would belong. -/
def isIntegral : Expr → Bool
  | .literal _ (.int _) | .literal _ (.bool _) => true
  | _ => false

def isText : Expr → Bool
  | .literal _ (.text ..) => true
  | _ => false

def doubleBraces (points : List Nat) : List Nat :=
  points.flatMap fun n => if n == 123 || n == 125 then [n, n] else [n]

def inBraces (value : Written) (conversion : Option Char) (spec : Except PrintFault (List Nat)) :
    Except PrintFault (List Nat) := do
  let points := toPoints (← value.toText)
  if points.contains 92 then .error .backslash
  else
    let points := if points.head? == some 123 then 32 :: points else points
    let mark := match conversion with
      | some c => [33, c.toNat]
      | none => []
    return 123 :: points ++ mark ++ (← spec) ++ [125]

/-- The positional parameters are closed by a slash. -/
def slashed : List Written → List Written
  | [] => []
  | [w] => [cat [w, write ", /"]]
  | w :: ws => w :: slashed ws

mutual

def expr (avoid : Bool) (level : Nat) : Expr → Written
  | .name _ id => write id
  | .literal _ value =>
    match value with
    | .text _ true => cat [write "u", do write (← literalText avoid value)]
    | value => do write (← literalText avoid value)
  | .member _ value attr =>
    cat [expr avoid Level.atom value, if isIntegral value then write " " else nothing, write ".", write attr]
  | .byteMember _ value _ =>
    cat [expr avoid Level.atom value, if isIntegral value then write " " else nothing, write ".",
      .ok [.bytes]]
  | .subscript _ value index =>
    match index with
    | .display _ .tuple (i :: is) =>
      cat ([expr avoid Level.atom value, write "["] ++
        tupleItems (expr avoid Level.test i :: exprs avoid Level.test is) ++ [write "]"])
    | index => cat [expr avoid Level.atom value, write "[", expr avoid Level.test index, write "]"]
  | .slice _ lower upper step =>
    cat [optExpr avoid "" lower, write ":", optExpr avoid "" upper, optExpr avoid ":" step]
  | .starred _ value => cat [write "*", expr avoid Level.bitOr value]
  | .call _ func args keywords =>
    cat ([expr avoid Level.atom func, write "("] ++
      commas (exprs avoid Level.test args ++ keywordArgs avoid keywords) ++ [write ")"])
  | .unary _ op operand =>
    let (text, own) := unaryText op
    parenthesize level own
      [write text, if own == Level.not then write " " else nothing, expr avoid own operand]
  | .binary _ op left right =>
    let (text, own) := binaryText op
    let (l, r) := if op = .pow then (Level.next own, own) else (own, Level.next own)
    parenthesize level own [expr avoid l left, write (" " ++ text ++ " "), expr avoid r right]
  | .logical _ op values =>
    let (text, own) := logicalText op
    parenthesize level own (operands avoid (" " ++ text ++ " ") (Level.next own) true values)
  | .compare _ left ops rights =>
    parenthesize level Level.compare (expr avoid (Level.next Level.compare) left :: compared avoid ops rights)
  | .conditional _ test body orelse =>
    parenthesize level Level.test [expr avoid (Level.next Level.test) body, write " if ",
      expr avoid (Level.next Level.test) test, write " else ", expr avoid Level.test orelse]
  | .lambda _ ps body =>
    parenthesize level Level.test [write "lambda", (do
        let ps ← params avoid ps
        if ps.isEmpty then pure [] else pure (.text " " :: ps)),
      write ": ", expr avoid Level.test body]
  | .walrus _ target value =>
    parenthesize level Level.namedExpr [expr avoid Level.atom target, write " := ", expr avoid Level.atom value]
  | .await _ value => parenthesize level Level.await [write "await", write " ", expr avoid Level.atom value]
  | .yield _ value =>
    match value with
    | some value => parenthesize level Level.yield [write "yield", write " ", expr avoid Level.atom value]
    | none => parenthesize level Level.yield [write "yield"]
  | .yieldFrom _ value => parenthesize level Level.yield [write "yield from ", expr avoid Level.atom value]
  | .display _ .list items => cat (write "[" :: commas (exprs avoid Level.test items) ++ [write "]"])
  | .display _ .set items =>
    if items.isEmpty then write "\x7b*()\x7d"
    else cat (write "\x7b" :: commas (exprs avoid Level.test items) ++ [write "\x7d"])
  | .display _ .tuple items =>
    let ws := tupleItems (exprs avoid Level.test items)
    if items.isEmpty || Level.tuple < level then cat (write "(" :: ws ++ [write ")"]) else cat ws
  | .dict _ items => cat (write "\x7b" :: commas (dictItems avoid items) ++ [write "\x7d"])
  | .comprehension _ kind element cs =>
    let (opening, closing) := match kind with
      | .list => ("[", "]")
      | .set => ("\x7b", "\x7d")
      | .generator => ("(", ")")
    cat [write opening, expr avoid Level.test element, clauses avoid cs, write closing]
  | .dictComprehension _ key value cs =>
    cat [write "\x7b", expr avoid Level.test key, write ": ", expr avoid Level.test value, clauses avoid cs,
      write "\x7d"]
  | .fstring _ parts => do
    let inner ← formatParts parts
    let text := if avoid then plainly Quotes.all (inner.flatMap Prod.fst) else formattedString inner
    pure [.text "f", .text (ofPoints text)]
  | .formatted _ value conversion spec => do
    write (ofPoints (← inBraces (expr true (Level.next Level.test) value) conversion (formatSpec spec)))

def exprs (avoid : Bool) (level : Nat) : List Expr → List Written
  | [] => []
  | e :: rest => expr avoid level e :: exprs avoid level rest

/-- An expression that may be missing, behind a text. -/
def optExpr (avoid : Bool) (before : String) : Option Expr → Written
  | none => nothing
  | some e =>
    if before.isEmpty then expr avoid Level.test e else cat [write before, expr avoid Level.test e]

/-- The operands of a boolean operator; each stands a level tighter than the one before. -/
def operands (avoid : Bool) (op : String) (level : Nat) (first : Bool) : List Expr → List Written
  | [] => []
  | e :: rest =>
    let more := expr avoid level e :: operands avoid op (Level.next level) false rest
    if first then more else write op :: more

def compared (avoid : Bool) : List CompareOp → List Expr → List Written
  | op :: ops, e :: rest =>
    write (" " ++ compareText op ++ " ") :: expr avoid (Level.next Level.compare) e :: compared avoid ops rest
  | _, _ => []

def keywordArgs (avoid : Bool) : List Keyword → List Written
  | [] => []
  | .mk none value :: rest => cat [write "**", expr avoid Level.test value] :: keywordArgs avoid rest
  | .mk (some name) value :: rest =>
    cat [write name, write "=", expr avoid Level.test value] :: keywordArgs avoid rest

def dictItems (avoid : Bool) : List DictItem → List Written
  | [] => []
  | .spread value :: rest => cat [write "**", expr avoid Level.bitOr value] :: dictItems avoid rest
  | .pair key value :: rest =>
    cat [expr avoid Level.test key, write ": ", expr avoid Level.test value] :: dictItems avoid rest

def clauses (avoid : Bool) : List Clause → Written
  | [] => nothing
  | .mk async target iter ifs :: rest =>
    cat ([write (if async then " async for " else " for "), expr avoid Level.tuple target, write " in ",
      expr avoid (Level.next Level.test) iter] ++ conditions avoid ifs ++ [clauses avoid rest])

def conditions (avoid : Bool) : List Expr → List Written
  | [] => []
  | e :: rest => write " if " :: expr avoid (Level.next Level.test) e :: conditions avoid rest

def param (avoid : Bool) : Param → Written
  | .mk name hint default =>
    cat [write name, optExpr avoid ": " hint, optExpr avoid "=" default]

def paramList (avoid : Bool) : List Param → List Written
  | [] => []
  | p :: rest => param avoid p :: paramList avoid rest

def params (avoid : Bool) : Params → Written
  | .mk positional plain rest keywordOnly keywords =>
    let star := match rest with
      | some (.mk name hint _) =>
        [cat [write "*", write name, optExpr avoid ": " hint]]
      | none => if keywordOnly.isEmpty then [] else [write "*"]
    let last := match keywords with
      | some (.mk name hint _) =>
        [cat [write ("**" ++ name), optExpr avoid ": " hint]]
      | none => []
    cat (commas (slashed (paramList avoid positional) ++ paramList avoid plain ++ star ++
      paramList avoid keywordOnly ++ last))

def formatParts : List Expr → Except PrintFault (List (List Nat × Bool))
  | [] => .ok []
  | e :: rest => do
    let part ← formatPart e
    let more ← formatParts rest
    pure ((part, isText e) :: more)

def formatPart : Expr → Except PrintFault (List Nat)
  | .literal _ (.text points _) => .ok (doubleBraces points)
  | .fstring _ parts => do return (← formatParts parts).flatMap Prod.fst
  | .formatted _ value conversion spec =>
    inBraces (expr true (Level.next Level.test) value) conversion (formatSpec spec)
  | _ => .ok []

def formatSpec : Option Expr → Except PrintFault (List Nat)
  | none => .ok []
  | some spec => do return 58 :: (← formatPart spec)

end

end CodeMigration.Source.Printer
