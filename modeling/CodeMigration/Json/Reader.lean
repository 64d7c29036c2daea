import CodeMigration.Json.Writer
import CodeMigration.Text.Integer

/-! # Reading JSON

Besides the numbers of the standard, `NaN`, `Infinity` and `-Infinity` are read. Of members with one
key the last value counts, at the place of the first. -/

namespace CodeMigration.Json

inductive Fault where
  | malformed
  /-- An integer has more digits than are read. -/
  | tooManyDigits (count : Nat)

def isBlank (c : Char) : Bool := c == ' ' || c == '\t' || c == '\n' || c == '\r'

def skipBlanks (cs : List Char) : List Char := cs.dropWhile isBlank

def hexValue? (c : Char) : Option Nat :=
  if '0' ≤ c && c ≤ '9' then some (c.toNat - '0'.toNat)
  else if 'a' ≤ c && c ≤ 'f' then some (c.toNat - 'a'.toNat + 10)
  else if 'A' ≤ c && c ≤ 'F' then some (c.toNat - 'A'.toNat + 10)
  else none

def unit? (a b c d : Char) : Option Nat := do
  return (((← hexValue? a) * 16 + (← hexValue? b)) * 16 + (← hexValue? c)) * 16 + (← hexValue? d)

/-- Half of a pair that is alone has no character; it is replaced. -/
def ofUnit (n : Nat) : Char := if 0xD800 ≤ n && n < 0xE000 then Char.ofNat 0xFFFD else Char.ofNat n

def isHigh (n : Nat) : Bool := 0xD800 ≤ n && n < 0xDC00

def isLow (n : Nat) : Bool := 0xDC00 ≤ n && n < 0xE000

def ofPair (high low : Nat) : Char := Char.ofNat (0x10000 + (high - 0xD800) * 1024 + (low - 0xDC00))

def simpleEscape? : Char → Option Char
  | '"' => some '"'
  | '\\' => some '\\'
  | '/' => some '/'
  | 'b' => some (Char.ofNat 8)
  | 'f' => some (Char.ofNat 12)
  | 'n' => some '\n'
  | 'r' => some '\r'
  | 't' => some '\t'
  | _ => none

/-- What is left of a text behind its opening quote; `high` is a half pair just read. -/
def readChars (high : Option Nat) : List Char → Except Fault (List Char × List Char)
  | '"' :: rest => .ok ((high.map ofUnit).toList, rest)
  | '\\' :: 'u' :: a :: b :: c :: d :: rest =>
    match unit? a b c d with
    | none => .error .malformed
    | some n =>
      match high with
      | some h =>
        if isLow n then do
          let (cs, rest) ← readChars none rest
          return (ofPair h n :: cs, rest)
        else if isHigh n then do
          let (cs, rest) ← readChars (some n) rest
          return (ofUnit h :: cs, rest)
        else do
          let (cs, rest) ← readChars none rest
          return (ofUnit h :: ofUnit n :: cs, rest)
      | none =>
        if isHigh n then readChars (some n) rest
        else do
          let (cs, rest) ← readChars none rest
          return (ofUnit n :: cs, rest)
  | '\\' :: e :: rest =>
    match simpleEscape? e with
    | none => .error .malformed
    | some c => do
      let (cs, rest) ← readChars none rest
      return ((high.map ofUnit).toList ++ c :: cs, rest)
  | c :: rest =>
    if c.toNat < 32 || c == '\\' then .error .malformed
    else do
      let (cs, rest) ← readChars none rest
      return ((high.map ofUnit).toList ++ c :: cs, rest)
  | [] => .error .malformed

def readString (cs : List Char) : Except Fault (String × List Char) := do
  let (text, rest) ← readChars none cs
  return (String.ofList text, rest)

def isDigit (c : Char) : Bool := '0' ≤ c && c ≤ '9'

def digitsOf (cs : List Char) : List Char × List Char := (cs.takeWhile isDigit, cs.dropWhile isDigit)

def natOf (ds : List Char) : Nat := ds.foldl (fun n d => n * 10 + (d.toNat - '0'.toNat)) 0

/-- The digits before a point; behind a zero there are no more. -/
def wholeOf : List Char → List Char × List Char
  | '0' :: rest => (['0'], rest)
  | cs => digitsOf cs

def readFraction : List Char → Option (List Char) × List Char
  | '.' :: rest =>
    match digitsOf rest with
    | ([], _) => (none, '.' :: rest)
    | (ds, rest) => (some ds, rest)
  | cs => (none, cs)

def readPower (cs : List Char) : Option Int × List Char :=
  match cs with
  | e :: rest =>
    if e == 'e' || e == 'E' then
      let (negative, rest) := Text.signOf rest
      match digitsOf rest with
      | ([], _) => (none, cs)
      | (ds, rest) => (some (if negative then -(natOf ds : Int) else natOf ds), rest)
    else (none, cs)
  | [] => (none, cs)

def readNumber (negative : Bool) (cs : List Char) : Except Fault (Value × List Char) :=
  let (whole, rest) := wholeOf cs
  if whole.isEmpty then .error .malformed
  else
    let (fraction, rest) := readFraction rest
    let (power, rest) := readPower rest
    match fraction, power with
    | none, none =>
      if Text.maxReadDigits < whole.length then .error (.tooManyDigits whole.length)
      else .ok (.int (if negative then -(natOf whole : Int) else natOf whole), rest)
    | _, _ =>
      let ds := fraction.getD []
      .ok (.float negative (.ofDecimal (natOf (whole ++ ds)) (power.getD 0 - ds.length)), rest)

/-- Sets a member, at its place if the key is there. -/
def setMember (key : String) (v : Value) : List (String × Value) → List (String × Value)
  | [] => [(key, v)]
  | (k, w) :: rest => if k == key then (k, v) :: rest else (k, w) :: setMember key v rest

abbrev Reading (α : Type) : Type := List Char → Except Fault (α × List Char)

/-- Reads parts with commas between them up to a bracket. Each part is added to those already read. -/
def readParts {α : Type} (add : List α → Reading (List α)) (close : Char) : Nat → List α → Reading (List α)
  | 0, _, _ => .error .malformed
  | fuel + 1, before, cs => do
    let (parts, rest) ← add before cs
    match skipBlanks rest with
    | [] => .error .malformed
    | c :: rest =>
      if c == close then return (parts, rest)
      else if c == ',' then readParts add close fuel parts (skipBlanks rest)
      else .error .malformed

/-- What stands between brackets, of which the first is read. -/
def readBracketed {α : Type} (add : List α → Reading (List α)) (close : Char) (fuel : Nat) : Reading (List α) := fun cs =>
  match skipBlanks cs with
  | [] => .error .malformed
  | c :: rest => if c == close then .ok ([], rest) else readParts add close fuel [] (c :: rest)

def addItem (read : Reading Value) (before : List Value) : Reading (List Value) := fun cs => do
  let (v, rest) ← read cs
  return (before ++ [v], rest)

def addMember (read : Reading Value) (before : List (String × Value)) : Reading (List (String × Value))
  | '"' :: rest => do
    let (key, rest) ← readString rest
    match skipBlanks rest with
    | ':' :: rest =>
      let (v, rest) ← read (skipBlanks rest)
      return (setMember key v before, rest)
    | _ => .error .malformed
  | _ => .error .malformed

def readValue : Nat → Reading Value
  | 0, _ => .error .malformed
  | fuel + 1, cs =>
    match cs with
    | '"' :: rest => do
      let (s, rest) ← readString rest
      return (.string s, rest)
    | '{' :: rest => do
      let (members, rest) ← readBracketed (addMember (readValue fuel)) '}' fuel rest
      return (.object members, rest)
    | '[' :: rest => do
      let (items, rest) ← readBracketed (addItem (readValue fuel)) ']' fuel rest
      return (.array items, rest)
    | 'n' :: 'u' :: 'l' :: 'l' :: rest => .ok (.null, rest)
    | 't' :: 'r' :: 'u' :: 'e' :: rest => .ok (.bool true, rest)
    | 'f' :: 'a' :: 'l' :: 's' :: 'e' :: rest => .ok (.bool false, rest)
    | 'N' :: 'a' :: 'N' :: rest => .ok (.nan, rest)
    | 'I' :: 'n' :: 'f' :: 'i' :: 'n' :: 'i' :: 't' :: 'y' :: rest => .ok (.float false .infinite, rest)
    | '-' :: 'I' :: 'n' :: 'f' :: 'i' :: 'n' :: 'i' :: 't' :: 'y' :: rest => .ok (.float true .infinite, rest)
    | '-' :: rest => readNumber true rest
    | cs => readNumber false cs

def ofChars (cs : List Char) : Except Fault Value := do
  let (v, rest) ← readValue (cs.length + 1) (skipBlanks cs)
  match skipBlanks rest with
  | [] => return v
  | _ => .error .malformed

def ofString (s : String) : Except Fault Value := ofChars s.toList

end CodeMigration.Json
