import CodeMigration.Text.Basic

/-! # Text with marks

Marks in brackets give a style to the text between them. A plain console shows the text alone, in lines of
a width. -/

namespace CodeMigration.Console

def startsMark (c : Char) : Bool := ('a' ≤ c && c ≤ 'z') || c == '#' || c == '/' || c == '@'

/-- How many characters a mark at the start of a text has behind its first bracket, if there is one. -/
def markLength? (rest : List Char) : Option Nat :=
  match rest with
  | [] => none
  | c :: _ =>
    let inner := rest.takeWhile fun c => c != ']' && c != '['
    if startsMark c && (rest.drop inner.length).head? == some ']' then some (inner.length + 1) else none

/-- A text without its marks; the first `skip` characters belong to one. -/
def dropMarks : Nat → List Char → List Char
  | _, [] => []
  | skip + 1, _ :: rest => dropMarks skip rest
  | 0, c :: rest =>
    if c == '[' then
      match markLength? rest with
      | some n => dropMarks n rest
      | none => c :: dropMarks 0 rest
    else c :: dropMarks 0 rest

def plain (s : String) : String := String.ofList (dropMarks 0 s.toList)

def wordsOf (cs : List Char) : List (List Char) :=
  let runs := cs.splitBy fun a b => Text.isBlank a == Text.isBlank b
  let joined := runs.foldl (fun (done : List (List Char)) run =>
    match done with
    | [] => [run]
    | last :: before =>
      if run.all Text.isBlank || last.all Text.isBlank then (last ++ run) :: before else run :: done) []
  joined.reverse

def chop (width : Nat) : Nat → List Char → List (List Char)
  | 0, _ => []
  | fuel + 1, cs => if cs.length ≤ width then [cs] else cs.take width :: chop width fuel (cs.drop width)

/-- Fills lines with words; one that is longer than a line is cut. -/
def fillLines (width : Nat) (line : List Char) : List (List Char) → List (List Char)
  | [] => [line]
  | word :: rest =>
    let length := (Text.stripRight word).length
    if line.length + length ≤ width then fillLines width (line ++ word) rest
    else if width < length then
      let parts := chop width word.length word
      (if line.isEmpty then [] else [line]) ++ parts.dropLast ++ fillLines width (parts.getLast?.getD []) rest
    else line :: fillLines width word rest

/-- Drops blanks at the end of a line that is too long. -/
def trimLine (width : Nat) (line : List Char) : List Char :=
  let blanks := line.length - (Text.stripRight line).length
  line.take (line.length - min blanks (line.length - width))

def shown (width : Nat) (s : String) : String :=
  let lines := (Text.lines (plain s)).flatMap fun line => fillLines width [] (wordsOf line.toList)
  String.join (lines.map fun line => String.ofList (trimLine width line) ++ "\n")

end CodeMigration.Console
