import CodeMigration.Text.Basic

/-! # Breaking text into lines -/

namespace CodeMigration.Text

def isLetter (c : Char) : Bool := isWordChar c && !isDecimal c.toNat && c != '_'

/-- Whether a word may be broken behind what was seen of it, the last character first: behind a hyphen with two
letters on each side. -/
def breaksHere (seen rest : List Char) : Bool :=
  match seen, rest with
  | '-' :: a :: b :: _, c :: d :: _ => isLetter a && isLetter b && isLetter c && isLetter d
  | _, _ => false

def wordParts (seen : List Char) : List Char → List (List Char)
  | [] => if seen.isEmpty then [] else [seen.reverse]
  | c :: rest =>
    if breaksHere (c :: seen) rest then (c :: seen).reverse :: wordParts [] rest else wordParts (c :: seen) rest

def pieces (cs : List Char) : List (List Char) :=
  (cs.splitBy fun a b => isBlank a == isBlank b).flatMap fun run =>
    if run.all isBlank then [run] else wordParts [] run

/-- Fills lines with pieces. Blanks at the start and the end of a line are dropped. -/
def fillFrom (width : Nat) (line : List Char) : List (List Char) → List (List Char)
  | [] => if (stripRight line).isEmpty then [] else [stripRight line]
  | piece :: rest =>
    if line.isEmpty && piece.all isBlank then fillFrom width [] rest
    else if line.isEmpty || line.length + piece.length ≤ width then fillFrom width (line ++ piece) rest
    else stripRight line :: fillFrom width (if piece.all isBlank then [] else piece) rest

def wrap (width : Nat) (s : String) : List String := (fillFrom width [] (pieces s.toList)).map String.ofList

end CodeMigration.Text
