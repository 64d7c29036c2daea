import CodeMigration.Text.Class

/-! # Quoted text

A text between quotes, on one line: single quotes unless the text has those and no double ones.
Backslashes, the quote itself and what is not printable are escaped. -/

namespace CodeMigration.Text

def hexDigits (width n : Nat) : List Nat :=
  let ds := (Nat.toDigits 16 n).map Char.toNat
  List.replicate (width - ds.length) 48 ++ ds

/-- The escape of a code point that is a backslash or not printable. -/
def escapePoint (n : Nat) : List Nat :=
  match n with
  | 9 => [92, 116]
  | 10 => [92, 110]
  | 13 => [92, 114]
  | 92 => [92, 92]
  | n =>
    if n < 256 then 92 :: 120 :: hexDigits 2 n
    else if n < 65536 then 92 :: 117 :: hexDigits 4 n
    else 92 :: 85 :: hexDigits 8 n

/-- The quote that needs the fewest escapes. -/
def chooseQuote (points : List Nat) : Nat :=
  if points.contains 39 && !points.contains 34 then 34 else 39

def quotePoint (quote n : Nat) : List Nat :=
  if n == quote then [92, n]
  else if n == 92 || !isPrintable n then escapePoint n
  else [n]

def quotePoints (points : List Nat) : List Nat :=
  let quote := chooseQuote points
  quote :: points.flatMap (quotePoint quote) ++ [quote]

def ofPoints (points : List Nat) : String := String.ofList (points.map Char.ofNat)

def toPoints (s : String) : List Nat := s.toList.map Char.toNat

def quote (s : String) : String := ofPoints (quotePoints (toPoints s))

def quoteByte (quote n : Nat) : List Nat :=
  if n == quote then [92, n]
  else if n == 92 || n < 32 || 127 ≤ n then escapePoint n
  else [n]

def quoteBytes (values : List Nat) : List Nat :=
  let quote := chooseQuote values
  98 :: quote :: values.flatMap (quoteByte quote) ++ [quote]

end CodeMigration.Text
