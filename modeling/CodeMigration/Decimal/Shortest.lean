import CodeMigration.Decimal.Binary64

/-! # Shortest decimal text

The fewest decimal digits that read back as the same float, and of those the nearest. Values from
10^-4 up to 10^16 are written positionally, others with a power of ten. -/

namespace CodeMigration.Decimal.Binary64

/-- Twice the value and the ends of the interval of reals that round to it, over a common
denominator: `(low, value, high, denominator)`. -/
def interval (m : Nat) (e : Int) : Nat × Nat × Nat × Nat :=
  -- below the smallest mantissa of a binade the neighbour is half as far
  let narrow := m == Nat.pow 2 52 && -1074 < e
  let low := if narrow then 4 * m - 1 else 4 * m - 2
  let (value, high) := (4 * m, 4 * m + 2)
  if 0 ≤ e then
    let k := Nat.pow 2 e.toNat
    (low * k, value * k, high * k, 4)
  else (low, value, high, 4 * Nat.pow 2 (-e).toNat)

/-- The power of ten of the leading digit: `10 ^ k ≤ value / den < 10 ^ (k + 1)`. -/
def leadingPower (value den : Nat) : Int :=
  let guess : Int := (decimalLength value : Int) - decimalLength den
  let (n, d) := inUnits 10 value den guess
  if d ≤ n then guess else guess - 1

/-- Whether a number lies between two, which count themselves if `closed` is set. -/
def isBetween (closed : Bool) (low high x : Nat) : Bool :=
  if closed then low ≤ x && x ≤ high else low < x && x < high

/-- The shortest digits `d` and power `p` with `d * 10 ^ p` inside the interval, trying one more
digit at a time. -/
def shortestFrom (low value high den : Nat) (closed : Bool) (lead : Int) : Nat → Nat → Nat × Int
  | 0, _ => (0, 0)
  | fuel + 1, count =>
    let p : Int := lead - count + 1
    let (n, d) := inUnits 10 value den p
    let (ln, _) := inUnits 10 low den p
    let (hn, _) := inUnits 10 high den p
    let below := n / d
    let above := below + 1
    match isBetween closed ln hn (below * d), isBetween closed ln hn (above * d) with
    | true, true =>
      let rest := 2 * (n - below * d)
      (if rest < d || (rest == d && below % 2 == 0) then below else above, p)
    | true, false => (below, p)
    | false, true => (above, p)
    | false, false => shortestFrom low value high den closed lead fuel (count + 1)

/-- Digits without a zero at the end, and the power of ten of the last one. -/
def stripZeros : Nat → Nat → Int → Nat × Int
  | 0, digits, p => (digits, p)
  | fuel + 1, digits, p =>
    if digits != 0 && digits % 10 == 0 then stripZeros fuel (digits / 10) (p + 1) else (digits, p)

def shortest (m : Nat) (e : Int) : Nat × Int :=
  let (low, value, high, den) := interval m e
  let (digits, p) := shortestFrom low value high den (m % 2 == 0) (leadingPower value den) 18 1
  stripZeros 20 digits p

/-- Digits with a point among them; `lead` is the power of ten of the first. `.0` stands behind a whole number where
`point` is set. -/
def positional (point : Bool) (ds : List Char) (lead : Int) : List Char :=
  if lead < 0 then '0' :: '.' :: (List.replicate (-lead - 1).toNat '0' ++ ds)
  else
    let whole := lead.toNat + 1
    let padded := ds ++ List.replicate (whole - ds.length) '0'
    let rest := padded.drop whole
    padded.take whole ++ if rest.isEmpty then (if point then ['.', '0'] else []) else '.' :: rest

/-- Digits with a power of ten behind them, of two digits at least. -/
def withPower (ds : List Char) (lead : Int) : List Char :=
  let mantissa := match ds with
    | d :: d' :: rest => d :: '.' :: d' :: rest
    | ds => ds
  let power := Nat.toDigits 10 lead.natAbs
  mantissa ++ 'e' :: (if lead < 0 then '-' else '+') :: if power.length < 2 then '0' :: power else power

def render (point : Bool) : Binary64 → String
  | .infinite => "inf"
  | .finite 0 _ => if point then "0.0" else "0"
  | .finite m e =>
    let (digits, p) := shortest m e
    let ds := Nat.toDigits 10 digits
    let lead : Int := p + ds.length - 1
    String.ofList (if -4 ≤ lead && lead < 16 then positional point ds lead else withPower ds lead)

end CodeMigration.Decimal.Binary64
