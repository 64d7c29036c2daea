import CodeMigration.Source.Tree
import CodeMigration.Decimal.Shortest
import CodeMigration.Text.Quoted

/-! # Written literals

Texts are written with the quotes that need no escapes, if there are any. -/

namespace CodeMigration.Source.Printer

open CodeMigration.Text (escapePoint isPrintable quotePoints quoteBytes ofPoints toPoints)

inductive PrintFault where
  /-- An integer has more digits than may be written. -/
  | tooManyDigits
  /-- An expression inside a formatted string cannot do without a backslash. -/
  | backslash
  /-- A member is named by bytes; the number is that of its chunk. -/
  | bytesMember (chunk : Nat)
  deriving DecidableEq

def PrintFault.message : PrintFault → String
  | .tooManyDigits =>
    "Exceeds the limit (4300 digits) for integer string conversion; " ++
      "use sys.set_int_max_str_digits() to increase the limit"
  | .backslash => "Unable to avoid backslash in f-string expression part"
  | .bytesMember chunk =>
    "sequence item " ++ toString chunk ++ ": expected str instance, bytes found"

inductive Quotes where
  | single | double | tripleDouble | tripleSingle
  deriving DecidableEq

def Quotes.points : Quotes → List Nat
  | .single => [39]
  | .double => [34]
  | .tripleDouble => [34, 34, 34]
  | .tripleSingle => [39, 39, 39]

def Quotes.mark : Quotes → Nat
  | .single | .tripleSingle => 39
  | .double | .tripleDouble => 34

def Quotes.isTriple : Quotes → Bool
  | .tripleDouble | .tripleSingle => true
  | _ => false

def Quotes.all : List Quotes := [.single, .double, .tripleDouble, .tripleSingle]

def Quotes.triple : List Quotes := [.tripleDouble, .tripleSingle]

def occursIn (part : List Nat) : List Nat → Bool
  | [] => part.isEmpty
  | n :: rest => part.isPrefixOf (n :: rest) || occursIn part rest

/-- Line ends and tabs stay as they are unless `escapeLayout` is set. -/
def escapeIn (escapeLayout : Bool) (n : Nat) : List Nat :=
  if !escapeLayout && (n == 10 || n == 9) then [n]
  else if n == 92 || !isPrintable n then escapePoint n
  else [n]

/-- A text as it stands between quotes, with the quotes that can be used, the best one first. If none
can, the text is quoted on one line. -/
def quotable (quotes : List Quotes) (escapeLayout : Bool) (points : List Nat) : List Nat × List Quotes :=
  let escaped := points.flatMap (escapeIn escapeLayout)
  let possible := quotes.filter fun q => (!escaped.contains 10 || q.isTriple) && !occursIn q.points escaped
  match possible, escaped.getLast? with
  | [], _ =>
    let plain := quotePoints points
    let mark := plain.headD 39
    let fallback := if mark == 39 then Quotes.single else .double
    ((plain.drop 1).dropLast, [(quotes.find? (·.mark == mark)).getD fallback])
  | _, none => (escaped, possible)
  | _, some last =>
    let sorted := possible.filter (·.mark != last) ++ possible.filter (·.mark == last)
    if sorted.head?.any (·.mark == last) then (escaped.dropLast ++ [92, last], sorted)
    else (escaped, sorted)

def enclose (q : Quotes) (points : List Nat) : List Nat := q.points ++ points ++ q.points

/-- A text with as few backslashes as possible. -/
def plainly (quotes : List Quotes) (points : List Nat) : List Nat :=
  let (text, possible) := quotable quotes false points
  enclose (possible.headD .single) text

/-- Chooses the quotes for the parts of a formatted string one after the other. -/
def formattedParts (quotes : List Quotes) : List (List Nat × Bool) → Option (List Nat × List Quotes)
  | [] => some ([], quotes)
  | (points, isText) :: rest =>
    let (text, possible) := quotable quotes isText points
    if possible.any quotes.contains then
      (formattedParts possible rest).map fun (more, last) => (text ++ more, last)
    else none

/-- The parts of a formatted string between quotes that fit all of them; each part tells whether it
is text. -/
def formattedString (parts : List (List Nat × Bool)) : List Nat :=
  match formattedParts Quotes.all parts with
  | some (text, quotes) => enclose (quotes.headD .single) text
  | none =>
    enclose .tripleSingle (parts.flatMap fun (points, _) => ((quotePoints (34 :: points)).drop 2).dropLast)

def maxIntDigits : Nat := 4300

/-- How an infinite float is written: as a number that is too large. -/
def floatText (point : Bool) : Decimal.Binary64 → String
  | .infinite => "1e309"
  | x => x.render point

/-- A literal as it is written. `avoid` asks for texts without backslashes. -/
def literalText (avoid : Bool) : Literal → Except PrintFault String
  | .null => .ok "None"
  | .bool true => .ok "True"
  | .bool false => .ok "False"
  | .ellipsis => .ok "..."
  | .int n =>
    let ds := Nat.toDigits 10 n
    if maxIntDigits < ds.length then .error .tooManyDigits else .ok (String.ofList ds)
  | .float x => .ok (floatText true x)
  | .imaginary x => .ok (floatText false x ++ "j")
  | .text points _ => .ok (ofPoints (if avoid then plainly Quotes.all points else quotePoints points))
  | .bytes values => .ok (ofPoints (quoteBytes values))

end CodeMigration.Source.Printer
