import CodeMigration.Decimal.Shortest
import CodeMigration.Text.Quoted

/-! # JSON values and their texts

JSON is written on one line or with items on lines of their own, and outside ASCII everything is escaped. -/

namespace CodeMigration.Json

/-- Numbers without a fraction or exponent are integers of any size. The members of an object keep
their order. -/
inductive Value where
  | null
  | bool (b : Bool)
  | int (n : Int)
  | float (negative : Bool) (x : Decimal.Binary64)
  | nan
  | string (s : String)
  | array (items : List Value)
  | object (members : List (String × Value))

def unitEscape (n : Nat) : String := "\\u" ++ Text.ofPoints (Text.hexDigits 4 n)

def writeChar (c : Char) : String :=
  let n := c.toNat
  if c == '"' then "\\\""
  else if c == '\\' then "\\\\"
  else if c == '\n' then "\\n"
  else if c == '\r' then "\\r"
  else if c == '\t' then "\\t"
  else if n == 8 then "\\b"
  else if n == 12 then "\\f"
  else if n < 32 then unitEscape n
  else if n < 128 then c.toString
  else if n < 0x10000 then unitEscape n
  else unitEscape (0xD800 + (n - 0x10000) / 1024) ++ unitEscape (0xDC00 + (n - 0x10000) % 1024)

def writeString (s : String) : String := "\"" ++ String.join (s.toList.map writeChar) ++ "\""

def floatText (negative : Bool) (x : Decimal.Binary64) : String := (if negative then "-" else "") ++ x.render true

def writeFloat (negative : Bool) : Decimal.Binary64 → String
  | .infinite => if negative then "-Infinity" else "Infinity"
  | x => floatText negative x

/-- How items are set apart: the space that each nested line is moved in by, or nothing for a single line. -/
abbrev Layout : Type := Option Nat

def newline (layout : Layout) (depth : Nat) : String :=
  match layout with
  | none => ""
  | some width => "\n" ++ String.ofList (List.replicate (width * depth) ' ')

def comma (layout : Layout) (depth : Nat) : String :=
  match layout with
  | none => ", "
  | some _ => "," ++ newline layout depth

mutual

def Value.writeAt (layout : Layout) (depth : Nat) : Value → String
  | .null => "null"
  | .bool b => if b then "true" else "false"
  | .int n => toString n
  | .float negative x => writeFloat negative x
  | .nan => "NaN"
  | .string s => writeString s
  | .array [] => "[]"
  | .array items =>
    "[" ++ newline layout (depth + 1) ++ (comma layout (depth + 1)).intercalate (writeItems layout (depth + 1) items) ++
      newline layout depth ++ "]"
  | .object [] => "\x7b\x7d"
  | .object members =>
    "\x7b" ++ newline layout (depth + 1) ++
      (comma layout (depth + 1)).intercalate (writeMembers layout (depth + 1) members) ++ newline layout depth ++ "\x7d"

def writeItems (layout : Layout) (depth : Nat) : List Value → List String
  | [] => []
  | v :: rest => v.writeAt layout depth :: writeItems layout depth rest

def writeMembers (layout : Layout) (depth : Nat) : List (String × Value) → List String
  | [] => []
  | (key, v) :: rest => (writeString key ++ ": " ++ v.writeAt layout depth) :: writeMembers layout depth rest

end

def Value.write (v : Value) : String := v.writeAt none 0

def Value.writeLines (v : Value) : String := v.writeAt (some 2) 0

mutual

/-- A value inside another: texts are quoted. -/
def Value.quoted : Value → String
  | .null => "None"
  | .bool b => if b then "True" else "False"
  | .int n => toString n
  | .float negative x => floatText negative x
  | .nan => "nan"
  | .string s => Text.quote s
  | .array items => "[" ++ ", ".intercalate (quotedItems items) ++ "]"
  | .object members => "\x7b" ++ ", ".intercalate (quotedMembers members) ++ "\x7d"

def quotedItems : List Value → List String
  | [] => []
  | v :: rest => v.quoted :: quotedItems rest

def quotedMembers : List (String × Value) → List String
  | [] => []
  | (key, v) :: rest => (Text.quote key ++ ": " ++ v.quoted) :: quotedMembers rest

end

def Value.show : Value → String
  | .string s => s
  | v => v.quoted

def Value.typeName : Value → String
  | .null => "NoneType"
  | .bool _ => "bool"
  | .int _ => "int"
  | .float .. | .nan => "float"
  | .string _ => "str"
  | .array _ => "list"
  | .object _ => "dict"

/-- Whether a value counts as something: not zero and not empty. -/
def Value.isSomething : Value → Bool
  | .null => false
  | .bool b => b
  | .int n => n != 0
  | .float _ x => match x with | .finite m _ => m != 0 | .infinite => true
  | .nan => true
  | .string s => !s.isEmpty
  | .array items => !items.isEmpty
  | .object members => !members.isEmpty

def Value.member? (key : String) : Value → Option Value
  | .object members => members.lookup key
  | _ => none

end CodeMigration.Json
