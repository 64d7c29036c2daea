import CodeMigration.Text.Class

/-! # Parts of a text

Blanks around a text, its lines, parts by place, and parts that are found and replaced. Places are counted from the
start or, if negative, from the end; those beyond the ends count as the ends. -/

namespace CodeMigration.Text

def isBlank (c : Char) : Bool := isSpace c.toNat

def isWordChar (c : Char) : Bool := isWord c.toNat

def stripLeft (cs : List Char) : List Char := cs.dropWhile isBlank

def stripRight (cs : List Char) : List Char := (cs.reverse.dropWhile isBlank).reverse

def stripBoth (cs : List Char) : List Char := stripRight (stripLeft cs)

def strip (s : String) : String := String.ofList (stripBoth s.toList)

def splitChars (sep : Char) : List Char → List (List Char)
  | [] => [[]]
  | c :: rest =>
    if c == sep then [] :: splitChars sep rest
    else match splitChars sep rest with
      | piece :: more => (c :: piece) :: more
      | [] => [[c]]

/-- The lines of a text. The text behind the last line end is a line too, even if it is empty. -/
def lines (s : String) : List String := (splitChars '\n' s.toList).map String.ofList

def unlines (ls : List String) : String := "\n".intercalate ls

/-- The number of items before a place. -/
def placeIn (length : Nat) (i : Int) : Nat := if i < 0 then (length + i).toNat else min i.toNat length

def upTo {α : Type} (i : Int) (xs : List α) : List α := xs.take (placeIn xs.length i)

def fromOn {α : Type} (i : Int) (xs : List α) : List α := xs.drop (placeIn xs.length i)

def between {α : Type} (i j : Int) (xs : List α) : List α :=
  (xs.take (placeIn xs.length j)).drop (placeIn xs.length i)

def occurs (part : List Char) : List Char → Bool
  | [] => part.isEmpty
  | c :: rest => part.isPrefixOf (c :: rest) || occurs part rest

theorem occurs_iff_isInfix {part cs : List Char} : occurs part cs = true ↔ part <:+: cs := by
  induction cs with
  | nil => rw [occurs, List.isEmpty_iff, List.infix_nil]
  | cons c cs ih => rw [occurs, Bool.or_eq_true, List.isPrefixOf_iff_prefix, ih, List.infix_cons_iff]

def contains (s part : String) : Bool := occurs part.toList s.toList

/-- Every occurrence, from the left and without overlap, gives way to another text; `skip` characters
belong to the occurrence before. The part is not empty. -/
def replaceFrom (part new : List Char) : Nat → List Char → List Char
  | _, [] => []
  | skip + 1, _ :: rest => replaceFrom part new skip rest
  | 0, c :: rest =>
    if part.isPrefixOf (c :: rest) then new ++ replaceFrom part new (part.length - 1) rest
    else c :: replaceFrom part new 0 rest

def replace (s part new : String) : String := String.ofList (replaceFrom part.toList new.toList 0 s.toList)

end CodeMigration.Text
