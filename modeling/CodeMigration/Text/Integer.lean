import CodeMigration.Text.Basic

/-! # Integers in a text

Decimal digits of any script, with single underscores between them, a sign in front and blanks
around. -/

namespace CodeMigration.Text

def maxReadDigits : Nat := 4300

inductive IntegerFault where
  | malformed
  | tooLong (digits : Nat)

/-- Values of digits, the first of which must be there; underscores stand between digits only. -/
def digitValues : List Char → Option (List Nat)
  | [] => none
  | [c] => (decimalValue? c.toNat).map ([·])
  | c :: '_' :: rest => do return (← decimalValue? c.toNat) :: (← digitValues rest)
  | c :: rest => do return (← decimalValue? c.toNat) :: (← digitValues rest)

def ofDigitValues (ds : List Nat) : Nat := ds.foldl (fun n d => n * 10 + d) 0

def signOf : List Char → Bool × List Char
  | '-' :: rest => (true, rest)
  | '+' :: rest => (false, rest)
  | rest => (false, rest)

def readInt (s : List Char) : Except IntegerFault Int :=
  let (negative, ds) := signOf (stripBoth s)
  match digitValues ds with
  | none => .error .malformed
  | some values =>
    if maxReadDigits < values.length then .error (.tooLong values.length)
    else .ok (if negative then -(ofDigitValues values : Int) else ofDigitValues values)

end CodeMigration.Text
