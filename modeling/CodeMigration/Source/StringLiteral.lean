import CodeMigration.Source.Tree
import CodeMigration.Source.Fault

/-! # Values of string literals

Prefix letters, quotes and escapes. Positions in faults count bytes of the form in which every
character beyond ASCII is written as an escape of ten bytes. -/

namespace CodeMigration.Source.StringLiteral

/-- A string literal taken apart: its letters, and the characters between the quotes with the number
of characters before them. -/
structure Parts where
  bytes : Bool
  raw : Bool
  format : Bool
  body : List Char
  start : Nat

def isLetter (c : Char) : Bool := c != '\'' && c != '"'

def quoteWidth : List Char → Nat
  | a :: b :: c :: _ => if a == b && b == c then 3 else 1
  | _ => 1

def split (text : List Char) : Parts :=
  let letters := (text.takeWhile isLetter).map Char.toLower
  let quoted := text.dropWhile isLetter
  let width := quoteWidth quoted
  { bytes := letters.contains 'b', raw := letters.contains 'r', format := letters.contains 'f',
    body := (quoted.drop width).take (quoted.length - 2 * width), start := letters.length + width }

def hexValue? (c : Char) : Option Nat :=
  if c.isDigit then some (c.toNat - 48)
  else if 'a' ≤ c && c ≤ 'f' then some (c.toNat - 87)
  else if 'A' ≤ c && c ≤ 'F' then some (c.toNat - 55)
  else none

def isOctal (c : Char) : Bool := '0' ≤ c && c ≤ '7'

def simpleEscape? : Char → Option Nat
  | '\\' => some 92
  | '\'' => some 39
  | '"' => some 34
  | 'b' => some 8
  | 'f' => some 12
  | 't' => some 9
  | 'n' => some 10
  | 'r' => some 13
  | 'v' => some 11
  | 'a' => some 7
  | _ => none

def width (c : Char) : Nat := if c.toNat < 128 then 1 else 10

/-- Up to `count` hexadecimal digits: their value, how many there are and what is left. -/
def hexDigits : Nat → Nat → Nat → List Char → Nat × Nat × List Char
  | 0, value, seen, cs => (value, seen, cs)
  | count + 1, value, seen, c :: rest =>
    match hexValue? c with
    | some d => hexDigits count (value * 16 + d) (seen + 1) rest
    | none => (value, seen, c :: rest)
  | _ + 1, value, seen, [] => (value, seen, [])

/-- The digits of the escapes by number, and the fault if there are fewer. Bytes have the first one only. -/
def hexEscape? (bytes : Bool) : Char → Option (Nat × String)
  | 'x' => some (2, "truncated \\xXX escape")
  | 'u' => if bytes then none else some (4, "truncated \\uXXXX escape")
  | 'U' => if bytes then none else some (8, "truncated \\UXXXXXXXX escape")
  | _ => none

/-- The characters by their names. -/
abbrev Names := List Char → Option Nat

/-- An escape by name: its character, the position behind it and what is left. -/
def namedEscape (names : Names) (pos : Nat) : List Char → Except Cause (Nat × Nat × List Char)
  | '{' :: named =>
    let name := named.takeWhile (· != '}')
    let wide := name.foldl (fun n c => n + width c) 0
    if name.length == named.length then
      .error (.textEscape pos (pos + 2 + wide) "malformed \\N character escape")
    else if name.isEmpty then .error (.textEscape pos (pos + 2) "malformed \\N character escape")
    else
      match names name with
      | none => .error (.textEscape pos (pos + 3 + wide) "unknown Unicode character name")
      | some n => .ok (n, pos + 4 + wide, named.drop (name.length + 1))
  | _ => .error (.textEscape pos (pos + 1) "malformed \\N character escape")

/-- The code points of a text with escapes, or its bytes. `pos` is the position of its first character. -/
def decode (names : Names) (bytes : Bool) : Nat → Nat → List Char → Except Cause (List Nat)
  | 0, _, _ => .ok []
  | _, _, [] => .ok []
  | fuel + 1, pos, '\\' :: cs =>
    match cs with
    | [] => .ok [92]
    | '\n' :: rest => decode names bytes fuel (pos + 2) rest
    | c :: rest =>
      match simpleEscape? c, hexEscape? bytes c with
      | some n, _ => (decode names bytes fuel (pos + 2) rest).map (n :: ·)
      | none, some (count, reason) =>
        let (value, seen, left) := hexDigits count 0 0 rest
        if seen < count then
          .error (if bytes then .byteEscape pos else .textEscape pos (pos + 1 + seen) reason)
        else if 0x10ffff < value then .error (.textEscape pos (pos + 1 + seen) "illegal Unicode character")
        else (decode names bytes fuel (pos + 2 + count) left).map (value :: ·)
      | none, none =>
        if isOctal c then
          let ds := (c :: rest).take 3 |>.takeWhile isOctal
          let value := ds.foldl (fun n d => n * 8 + (d.toNat - 48)) 0
          (decode names bytes fuel (pos + 1 + ds.length) ((c :: rest).drop ds.length)).map
            ((if bytes then value % 256 else value) :: ·)
        else if c == 'N' && !bytes then do
          let (n, pos, left) ← namedEscape names pos rest
          return n :: (← decode names bytes fuel pos left)
        else (decode names bytes fuel (pos + if c.toNat < 128 then 2 else 16) rest).map (92 :: c.toNat :: ·)
  | fuel + 1, pos, c :: rest => (decode names bytes fuel (pos + width c) rest).map (c.toNat :: ·)

/-- The code points of the body of a literal. That of bytes has to be ASCII. -/
def value (names : Names) (bytes raw : Bool) (body : List Char) : Except Cause (List Nat) :=
  if raw then .ok (body.map Char.toNat) else decode names bytes (body.length + 1) 0 body

end CodeMigration.Source.StringLiteral
