/-! # Binary floating point values

The values that a 64-bit binary float can hold from zero up, as exact integers: a mantissa below
2^53 and a power of two. -/

namespace CodeMigration.Decimal

/-- A value `mantissa * 2 ^ exponent`, or what is too large for one. -/
inductive Binary64 where
  | finite (mantissa : Nat) (exponent : Int)
  | infinite

namespace Binary64

/-- The quotient rounded to the nearest integer, a half to the even one. -/
def roundDiv (num den : Nat) : Nat :=
  let q := num / den
  let r := num % den
  if 2 * r < den then q
  else if den < 2 * r then q + 1
  else if q % 2 == 0 then q else q + 1

def bitLength (n : Nat) : Nat := if n == 0 then 0 else n.log2 + 1

/-- `num / den` in units of `base ^ p`, as a fraction. -/
def inUnits (base num den : Nat) (p : Int) : Nat × Nat :=
  if 0 ≤ p then (num, den * Nat.pow base p.toNat) else (num * Nat.pow base (-p).toNat, den)

/-- The exponent that leaves 53 binary digits before the point. -/
def fitting (num den : Nat) : Int :=
  let guess : Int := (bitLength num : Int) - bitLength den - 53
  let (n, d) := inUnits 2 num den guess
  if n / d < Nat.pow 2 53 then guess else guess + 1

/-- The float nearest to `num / den`, a half to the even mantissa. -/
def ofRatio (num den : Nat) : Binary64 :=
  if num == 0 then .finite 0 0
  else
    -- no float has a smaller exponent
    let e := max (fitting num den) (-1074)
    let (n, d) := inUnits 2 num den e
    let m := roundDiv n d
    let (m, e) := if m == Nat.pow 2 53 then (Nat.pow 2 52, e + 1) else (m, e)
    if 971 < e then .infinite else .finite m e

def decimalLength (n : Nat) : Nat := (Nat.toDigits 10 n).length

def ofDecimal (digits : Nat) (exponent : Int) : Binary64 :=
  if digits == 0 then .finite 0 0
  else
    let top := exponent + decimalLength digits
    if 310 < top then .infinite
    else if top < -330 then .finite 0 0
    else if 0 ≤ exponent then ofRatio (digits * Nat.pow 10 exponent.toNat) 1
    else ofRatio digits (Nat.pow 10 (-exponent).toNat)

def fixed (places : Nat) : Binary64 → String
  | .infinite => "inf"
  | .finite m e =>
    let scaled := m * Nat.pow 10 places
    let n := if 0 ≤ e then scaled * Nat.pow 2 e.toNat else roundDiv scaled (Nat.pow 2 (-e).toNat)
    let digits := Nat.toDigits 10 n
    let digits := List.replicate (places + 1 - digits.length) '0' ++ digits
    let whole := digits.length - places
    String.ofList (digits.take whole ++ (if places == 0 then [] else ['.']) ++ digits.drop whole)

end Binary64

end CodeMigration.Decimal
