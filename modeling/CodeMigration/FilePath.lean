/-! # Paths of files -/

namespace CodeMigration

/-- A path in its normal form: what it starts with (nothing, one slash or two) and its parts, none of
them empty or a single dot. -/
structure FilePath where
  root : String
  parts : List String
  deriving DecidableEq

namespace FilePath

def splitSlashes (cs : List Char) : List String :=
  (cs.splitBy fun a b => a != '/' && b != '/').filterMap fun piece =>
    if piece.head? == some '/' then none else some (String.ofList piece)

def ofString (s : String) : FilePath :=
  let cs := s.toList
  let slashes := (cs.takeWhile (· == '/')).length
  let root := if slashes == 0 then "" else if slashes == 2 then "//" else "/"
  ⟨root, (splitSlashes cs).filter (· != ".")⟩

def toString (p : FilePath) : String :=
  if p.root.isEmpty && p.parts.isEmpty then "." else p.root ++ "/".intercalate p.parts

def join (p q : FilePath) : FilePath := if q.root.isEmpty then ⟨p.root, p.parts ++ q.parts⟩ else q

def child (p : FilePath) (s : String) : FilePath := p.join (ofString s)

def parent (p : FilePath) : FilePath := ⟨p.root, p.parts.dropLast⟩

def name (p : FilePath) : String := p.parts.getLast?.getD ""

/-- The place of the last dot in a name that has something before it and behind it. -/
def splitName (name : String) : String × String :=
  let cs := name.toList
  let ext := (cs.reverse.takeWhile (· != '.')).reverse
  let before := cs.length - ext.length
  if before ≤ 1 || ext.isEmpty then (name, "") else
    (String.ofList (cs.take (before - 1)), "." ++ String.ofList ext)

/-- The last part without what stands behind its last dot. -/
def stem (p : FilePath) : String := (splitName p.name).1

end FilePath

def normalPath (s : String) : String := (FilePath.ofString s).toString

end CodeMigration
