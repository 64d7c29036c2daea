/-! # Likeness of words

How much of two words can be matched: the longest part that both have, and then what is in front of it
and behind it. -/

namespace CodeMigration.Text

/-- How many characters two words have in common at their starts. -/
def commonLength : List Char → List Char → Nat
  | a :: as, b :: bs => if a == b then commonLength as bs + 1 else 0
  | _, _ => 0

/-- The longest part that two words have in common: its places and its length. Of equal ones the first counts. -/
def longestCommon (as bs : List Char) : Nat × Nat × Nat :=
  let places := (List.range as.length).flatMap fun i => (List.range bs.length).map fun j => (i, j)
  places.foldl (fun best (i, j) =>
    let n := commonLength (as.drop i) (bs.drop j)
    if best.2.2 < n then (i, j, n) else best) (0, 0, 0)

/-- How many characters of two words match, for words of some length at most. -/
def matched : Nat → List Char → List Char → Nat
  | 0, _, _ => 0
  | fuel + 1, as, bs =>
    match longestCommon as bs with
    | (_, _, 0) => 0
    | (i, j, n + 1) =>
      n + 1 + matched fuel (as.take i) (bs.take j) + matched fuel (as.drop (i + n + 1)) (bs.drop (j + n + 1))

def isLike (a b : String) : Bool :=
  20 * matched a.length a.toList b.toList ≥ 6 * (a.length + b.length)

end CodeMigration.Text
