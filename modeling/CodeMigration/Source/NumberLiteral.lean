import CodeMigration.Source.Tree
import CodeMigration.Source.Fault

/-! # Values of number literals -/

namespace CodeMigration.Source.NumberLiteral

open CodeMigration.Decimal (Binary64)

def digitValue (c : Char) : Nat :=
  if c.isDigit then c.toNat - 48
  else if 'a' ≤ c && c ≤ 'f' then c.toNat - 87
  else if 'A' ≤ c && c ≤ 'F' then c.toNat - 55
  else 0

def valueIn (base : Nat) (ds : List Char) : Nat := ds.foldl (fun n c => n * base + digitValue c) 0

def maxDigits : Nat := 4300

/-- The float written by digits with an optional fraction and exponent. -/
def float (cs : List Char) : Binary64 :=
  let whole := cs.takeWhile Char.isDigit
  let rest := cs.drop whole.length
  let (frac, rest) := match rest with
    | '.' :: r => (r.takeWhile Char.isDigit, r.dropWhile Char.isDigit)
    | r => ([], r)
  let power : Int := match rest with
    | _ :: '-' :: ds => -(valueIn 10 ds : Int)
    | _ :: '+' :: ds => valueIn 10 ds
    | _ :: ds => valueIn 10 ds
    | [] => 0
  .ofDecimal (valueIn 10 (whole ++ frac)) (power - frac.length)

def parse (text : List Char) : Except Cause Literal :=
  let cs := text.filter (· != '_')
  match cs with
  | '0' :: 'x' :: ds | '0' :: 'X' :: ds => .ok (.int (valueIn 16 ds))
  | '0' :: 'o' :: ds | '0' :: 'O' :: ds => .ok (.int (valueIn 8 ds))
  | '0' :: 'b' :: ds | '0' :: 'B' :: ds => .ok (.int (valueIn 2 ds))
  | cs =>
    if cs.all Char.isDigit then
      if maxDigits < cs.length then .error (.tooManyDigits cs.length) else .ok (.int (valueIn 10 cs))
    else match cs.getLast? with
      | some 'j' | some 'J' => .ok (.imaginary (float cs.dropLast))
      | _ => .ok (.float (float cs))

end CodeMigration.Source.NumberLiteral
