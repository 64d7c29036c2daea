/-! # Ranges of code points

Tables of Unicode properties are written as numbers: for each range the gap to the end of the range
before it, then its length less one. -/

namespace CodeMigration.Text

/-- A number ends with a character from `0` to `Z`, a digit in base 43. The digits before it, in base
26, are small letters. -/
def numbersIn (cs : List Char) : List Nat :=
  let step (st : Nat × List Nat) (c : Char) : Nat × List Nat :=
    if c.isLower then (st.1 * 26 + (c.toNat - 97), st.2)
    else if '0' ≤ c && c ≤ 'Z' then (0, (st.1 * 43 + (c.toNat - 48)) :: st.2)
    else st
  (cs.foldl step (0, [])).2.reverse

def numbers (s : String) : List Nat := numbersIn s.toList

/-- Down by `(shift + 1) / 2` if `shift` is odd, up by `shift / 2` if it is even. -/
def moved (shift n : Nat) : Nat := if shift % 2 == 0 then n + shift / 2 else n - (shift + 1) / 2

/-- Disjoint ranges of code points in increasing order, both ends included. -/
structure CodeRanges where
  bounds : Array (Nat × Nat)

namespace CodeRanges

/-- Reads gaps and lengths; `next` is the first code point not yet passed. -/
def pairs (next : Nat) : List Nat → List (Nat × Nat)
  | gap :: len :: rest => (next + gap, next + gap + len) :: pairs (next + gap + len + 1) rest
  | _ => []

def ofText (s : String) : CodeRanges := ⟨(pairs 0 (numbers s)).toArray⟩

/-- Halves the part `[lo, hi)` of the table that may hold `n`, at most `fuel` times. -/
def search (bounds : Array (Nat × Nat)) (n : Nat) : Nat → Nat → Nat → Option (Nat × Nat)
  | 0, _, _ => none
  | fuel + 1, lo, hi =>
    if lo < hi then
      let mid := (lo + hi) / 2
      match bounds[mid]? with
      | none => none
      | some (a, b) =>
        if n < a then search bounds n fuel lo mid
        else if b < n then search bounds n fuel (mid + 1) hi
        else some (a, b)
    else none

def range? (r : CodeRanges) (n : Nat) : Option (Nat × Nat) :=
  search r.bounds n (r.bounds.size + 1) 0 r.bounds.size

def contains (r : CodeRanges) (n : Nat) : Bool := (r.range? n).isSome

end CodeRanges

end CodeMigration.Text
