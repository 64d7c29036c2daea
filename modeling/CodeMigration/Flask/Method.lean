import CodeMigration.Failure
import CodeMigration.Text.Case

/-! # The methods of a route

A route answers `GET` unless its `methods` keyword lists others. -/

namespace CodeMigration.Flask

open Source

/-- The name of a method, which bytes can give too. -/
inductive Method where
  | text (name : String)
  | bytes (name : List Nat)

namespace Method

def get : Method := .text "GET"

def lowerByte (n : Nat) : Nat := if Text.isAsciiUpper n then n + 32 else n

def upperByte (n : Nat) : Nat := if Text.isAsciiLower n then n - 32 else n

def lower : Method → Method
  | text name => text (Text.lower name)
  | bytes name => bytes (name.map lowerByte)

def shown : Method → String
  | text name => name
  | bytes name => Text.ofPoints (Text.quoteBytes name)

/-- The method that an item of the list names; what is no constant stands for `GET`. -/
def ofExpr : Expr → Except Failure Method
  | .literal _ value =>
    match value with
    | .text points _ => .ok (text (Text.upper (Text.ofPoints points)))
    | .bytes values => .ok (bytes (values.map upperByte))
    | .null => .error (.noMember "NoneType" "upper")
    | .bool _ => .error (.noMember "bool" "upper")
    | .ellipsis => .error (.noMember "ellipsis" "upper")
    | .int _ => .error (.noMember "int" "upper")
    | .float _ => .error (.noMember "float" "upper")
    | .imaginary _ => .error (.noMember "complex" "upper")
  | _ => .ok get

def ofExprs : List Expr → Except Failure (List Method)
  | [] => .ok []
  | e :: rest => do
    let m ← ofExpr e
    let ms ← ofExprs rest
    pure (m :: ms)

/-- The methods that the keywords of a route give, the last `methods` list counting; `found` are
those so far. -/
def fromKeywords (found : List Method) : List Keyword → Except Failure (List Method)
  | [] => .ok found
  | .mk (some "methods") (.display _ .list items) :: rest => do fromKeywords (← ofExprs items) rest
  | _ :: rest => fromKeywords found rest

def ofKeywords (keywords : List Keyword) : Except Failure (List Method) := fromKeywords [get] keywords

end Method

end CodeMigration.Flask
