import CodeMigration.Source.Tree
import CodeMigration.Text.Basic

/-! # Source segments

The text that a node was read from. -/

namespace CodeMigration.Source

/-- Lines with their ends: a line feed, a carriage return or both together. -/
def linesWithEnds : List Char → List (List Char)
  | [] => []
  | '\r' :: '\n' :: rest => ['\r', '\n'] :: linesWithEnds rest
  | '\r' :: rest => ['\r'] :: linesWithEnds rest
  | '\n' :: rest => ['\n'] :: linesWithEnds rest
  | c :: rest =>
    match linesWithEnds rest with
    | line :: more => (c :: line) :: more
    | [] => [[c]]

/-- The text behind the first `n` bytes, if these are whole characters. -/
def dropBytes : Nat → List Char → Option (List Char)
  | 0, cs => some cs
  | _, [] => some []
  | n, c :: rest => if c.utf8Size ≤ n then dropBytes (n - c.utf8Size) rest else none

def takeBytes : Nat → List Char → Option (List Char)
  | 0, _ => some []
  | _, [] => some []
  | n, c :: rest =>
    if c.utf8Size ≤ n then (takeBytes (n - c.utf8Size) rest).map (c :: ·) else none

def cutBytes (start stop : Nat) (line : List Char) : Option (List Char) :=
  if stop ≤ start then some [] else do takeBytes (stop - start) (← dropBytes start line)

/-- A source text, cut into lines in two ways. -/
structure SourceText where
  withEnds : List (List Char)
  plain : List String

def SourceText.ofString (s : String) : SourceText := ⟨linesWithEnds s.toList, Text.lines s⟩

/-- The text of a node; `none` where the source has no such place. -/
def SourceText.cut? (src : SourceText) (span : Span) : Option String := do
  let first ← src.withEnds[span.line - 1]?
  if span.line == span.endLine then
    return String.ofList (← cutBytes span.col span.endCol first)
  else
    let first ← dropBytes span.col first
    let last ← src.withEnds[span.endLine - 1]?
    let last ← takeBytes span.endCol last
    let between := (src.withEnds.drop span.line).take (span.endLine - 1 - span.line)
    return String.ofList (first ++ between.flatten ++ last)

/-- The text of a node, or else the line where it starts, or `none` if there is no such line. -/
def SourceText.segment? (src : SourceText) (span : Span) : Option String :=
  (src.cut? span).or src.plain[span.line - 1]?

end CodeMigration.Source
