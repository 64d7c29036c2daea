import CodeMigration.Source.Printer.Expression

/-! # Printed statements

One statement a line, four blanks for each level of blocks, an empty line before each definition. -/

namespace CodeMigration.Source.Printer

open CodeMigration.Text (ofPoints)

mutual

def pattern (level : Nat) : Pattern → Written
  | .value e => expr false Level.test e
  | .singleton value => do write (← literalText false value)
  | .sequence items => cat (write "[" :: commas (patterns Level.test items) ++ [write "]"])
  | .mapping keys items rest =>
    let last := match rest with
      | some name => [write ("**" ++ name)]
      | none => []
    cat (write "\x7b" :: commas (mappingItems keys items ++ last) ++ [write "\x7d"])
  | .classOf cls items names named =>
    cat ([expr false Level.atom cls, write "("] ++
      commas (patterns Level.test items ++ namedItems names named) ++ [write ")"])
  | .star name => write ("*" ++ name.getD "_")
  | .capture _ none => write "_"
  | .capture none (some name) => write name
  | .capture (some p) (some name) =>
    parenthesize level Level.test [pattern Level.bitOr p, write (" as " ++ name)]
  | .anyOf choices =>
    parenthesize level Level.bitOr (alternatives true choices)

def patterns (level : Nat) : List Pattern → List Written
  | [] => []
  | p :: rest => pattern level p :: patterns level rest

def mappingItems : List Expr → List Pattern → List Written
  | key :: keys, p :: rest =>
    cat [expr false Level.test key, write ": ", pattern Level.test p] :: mappingItems keys rest
  | _, _ => []

def namedItems : List String → List Pattern → List Written
  | name :: names, p :: rest => cat [write (name ++ "="), pattern Level.test p] :: namedItems names rest
  | _, _ => []

def alternatives (first : Bool) : List Pattern → List Written
  | [] => []
  | p :: rest =>
    let more := pattern (Level.next Level.bitOr) p :: alternatives false rest
    if first then more else write " | " :: more

end

/-- A text on a line of its own; nothing precedes the `first` line. -/
def line (first : Bool) (indent : Nat) (text : String) : Written :=
  let text := String.ofList (List.replicate (4 * indent) ' ') ++ text
  if first then write text else cat [write "\n", write text]

def lineEnd (first : Bool) : Written := if first then nothing else write "\n"

def value (e : Expr) : Written := expr false Level.test e

def optValue (before : String) (e : Option Expr) : Written := optExpr false before e

def aliasText (a : Alias) : Written :=
  match a.asName with
  | some name => cat [write a.name, write (" as " ++ name)]
  | none => write a.name

def targets : List Expr → List Written
  | [] => []
  | e :: rest => expr false Level.tuple e :: write " = " :: targets rest

def withItems : List WithItem → List Written
  | [] => []
  | item :: rest => cat [value item.context, optValue " as " item.target] :: withItems rest

def decoratorLines (first : Bool) (indent : Nat) : List Expr → List Written
  | [] => []
  | e :: rest => cat [line first indent "@", value e] :: decoratorLines false indent rest

def isPlainName : Expr → Bool
  | .name .. => true
  | _ => false

/-- The text at the start of a body that describes it. -/
def docstringLine (first : Bool) (indent : Nat) (points : List Nat) (marked : Bool) : Written :=
  cat [line first indent "", if marked then write "u" else nothing,
    write (ofPoints (plainly Quotes.triple points))]

def clause (indent : Nat) (word : String) (empty : Bool) (body : Written) : Written :=
  if empty then nothing else cat [line false indent word, write ":", body]

def isBranch : List Stmt → Bool
  | [.ifElse ..] => true
  | _ => false

mutual

/-- A statement at some depth; `branch` is set for an `if` that goes on from another. -/
def stmt (branch first : Bool) (indent : Nat) : Stmt → Written
  | .expr _ e => cat [line first indent "", expr false Level.yield e]
  | .assign _ ts e => cat (line first indent "" :: targets ts ++ [value e])
  | .augAssign _ target op e =>
    cat [line first indent "", value target, write (" " ++ (binaryText op).1 ++ "= "), value e]
  | .annAssign _ target hint e simple =>
    let target := if !simple && isPlainName target then [write "(", value target, write ")"] else [value target]
    cat (line first indent "" :: target ++ [write ": ", value hint, optValue " = " e])
  | .ret _ e => cat [line first indent "return", optValue " " e]
  | .delete _ es => cat (line first indent "del " :: commas (exprs false Level.test es))
  | .assert _ test message => cat [line first indent "assert ", value test, optValue ", " message]
  | .raise _ exc cause =>
    match exc with
    | some e => cat [line first indent "raise", write " ", value e, optValue " from " cause]
    | none => line first indent "raise"
  | .pass _ => line first indent "pass"
  | .breakLoop _ => line first indent "break"
  | .continueLoop _ => line first indent "continue"
  | .global _ names => cat (line first indent "global " :: commas (names.map write))
  | .nonlocal _ names => cat (line first indent "nonlocal " :: commas (names.map write))
  | .importModules _ names => cat (line first indent "import " :: commas (names.map aliasText))
  | .importFrom _ source names level =>
    let from_ := match source with
      | some name => if name.isEmpty then [] else [write name]
      | none => []
    cat ([line first indent "from ", write (String.ofList (List.replicate level '.'))] ++ from_ ++
      [write " import "] ++ commas (names.map aliasText))
  | .functionDef _ async name ps body decorators returns =>
    cat ([lineEnd first] ++ decoratorLines first indent decorators ++
      [line (first && decorators.isEmpty) indent ((if async then "async def " else "def ") ++ name),
        write "(", params false ps, write ")", optValue " -> " returns, write ":",
        stmts true false (indent + 1) body])
  | .classDef _ name bases keywords body decorators =>
    let args := commas (exprs false Level.test bases ++ keywordArgs false keywords)
    let args := if args.isEmpty then [] else write "(" :: args ++ [write ")"]
    cat ([lineEnd first] ++ decoratorLines first indent decorators ++
      [line (first && decorators.isEmpty) indent ("class " ++ name)] ++ args ++
      [write ":", stmts true false (indent + 1) body])
  | .ifElse _ test body orelse =>
    cat [line first indent (if branch then "elif " else "if "), value test, write ":",
      stmts false false (indent + 1) body,
      if isBranch orelse then chain indent orelse
      else clause indent "else" orelse.isEmpty (stmts false false (indent + 1) orelse)]
  | .whileLoop _ test body orelse =>
    cat [line first indent "while ", value test, write ":", stmts false false (indent + 1) body,
      clause indent "else" orelse.isEmpty (stmts false false (indent + 1) orelse)]
  | .forLoop _ async target iter body orelse =>
    cat [line first indent (if async then "async for " else "for "), expr false Level.tuple target, write " in ",
      value iter, write ":", stmts false false (indent + 1) body,
      clause indent "else" orelse.isEmpty (stmts false false (indent + 1) orelse)]
  | .withBlock _ async items body =>
    cat ([line first indent (if async then "async with " else "with ")] ++ commas (withItems items) ++
      [write ":", stmts false false (indent + 1) body])
  | .tryBlock _ star body handlers orelse cleanup =>
    cat [line first indent "try", write ":", stmts false false (indent + 1) body, handlerLines star indent handlers,
      clause indent "else" orelse.isEmpty (stmts false false (indent + 1) orelse),
      clause indent "finally" cleanup.isEmpty (stmts false false (indent + 1) cleanup)]
  | .matchCases _ subject cases =>
    cat [line first indent "match ", value subject, write ":", caseLines (indent + 1) cases]

def stmts (doc first : Bool) (indent : Nat) : List Stmt → Written
  | [] => nothing
  | s :: rest =>
    cat [match doc, s with
      | true, .expr _ (.literal _ (.text points marked)) => docstringLine first indent points marked
      | _, s => stmt false first indent s,
      stmts false false indent rest]

def chain (indent : Nat) : List Stmt → Written
  | [] => nothing
  | s :: _ => stmt true false indent s

def handlerLines (star : Bool) (indent : Nat) : List Handler → Written
  | [] => nothing
  | .mk _ type name body :: rest =>
    let name := match name with
      | some name => [write " as ", write name]
      | none => []
    cat ([line false indent (if star then "except*" else "except"), optValue " " type] ++ name ++
      [write ":", stmts false false (indent + 1) body, handlerLines star indent rest])

def caseLines (indent : Nat) : List Case → Written
  | [] => nothing
  | .mk p guard body :: rest =>
    cat [line false indent "case ", pattern Level.test p, optValue " if " guard, write ":",
      stmts false false (indent + 1) body, caseLines indent rest]

end

end Printer

def Module.print (m : Module) : Except Printer.PrintFault String :=
  (Printer.stmts true true 0 m.body).toText

end CodeMigration.Source
