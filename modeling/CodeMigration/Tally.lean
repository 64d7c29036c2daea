/-! # Counting by name -/

namespace CodeMigration

/-- Counts one more of a name; a new one goes to the end. -/
def countOne (name : String) : List (String × Nat) → List (String × Nat)
  | [] => [(name, 1)]
  | (other, n) :: rest => if other == name then (other, n + 1) :: rest else (other, n) :: countOne name rest

/-- How often each name is there, in the order in which they come first. -/
def tally (names : List String) : List (String × Nat) := names.foldl (fun counts name => countOne name counts) []

def byCount (counts : List (String × Nat)) : List (String × Nat) := counts.mergeSort fun a b => b.2 ≤ a.2

/-- One item more for a key; a new key goes to the end. -/
def addTo {α : Type} (key : String) (item : α) : List (String × List α) → List (String × List α)
  | [] => [(key, [item])]
  | (other, items) :: rest =>
    if other == key then (other, items ++ [item]) :: rest else (other, items) :: addTo key item rest

/-- Items by a key, keys in the order in which they come first. -/
def groupBy {α : Type} (key : α → String) (items : List α) : List (String × List α) :=
  items.foldl (fun groups item => addTo (key item) item groups) []

end CodeMigration
