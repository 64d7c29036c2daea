import CodeMigration.Finding
import CodeMigration.Failure
import CodeMigration.Text.Case

/-! # Issues in an answer

An answer lists issues as bullets: a kind first, then lines, code, severity and a suggestion, in any order. -/

namespace CodeMigration.Assistant

def noIssues : String := "NO_ISSUES_FOUND"

structure Draft where
  kind : Option String := none
  line : Option Nat := none
  code : Option String := none
  severity : Option String := none
  suggestion : Option String := none
  deriving DecidableEq

inductive Bullet where
  | kind (text : String)
  | line (number : Nat)
  | code (text : String)
  | severity (text : String)
  | suggestion (text : String)
  /-- A suggestion without a colon. -/
  | broken
  | other
  deriving DecidableEq

def afterColon? (cs : List Char) : Option (List Char) :=
  match cs.dropWhile (· != ':') with
  | [] => none
  | _ :: rest => some rest

def stripped (cs : List Char) : String := String.ofList (Text.stripBoth cs)

/-- Digits that are not decimal ones: in circles, raised and the like. -/
def oddDigits : List (Nat × Nat) := [
  (178, 179), (185, 185), (4969, 4977), (6618, 6618), (8304, 8304), (8308, 8313), (8320, 8329), (9312, 9320),
  (9332, 9340), (9352, 9360), (9450, 9450), (9461, 9469), (9471, 9471), (10102, 10110), (10112, 10120),
  (10122, 10130), (68160, 68163), (69216, 69224), (69714, 69722), (127232, 127242)]

def isDigit (c : Char) : Bool :=
  Text.isDecimal c.toNat || oddDigits.any fun (lo, hi) => lo ≤ c.toNat && c.toNat ≤ hi

/-- All digits of a text as one number; one where they are none. -/
def lineNumber (cs : List Char) : Nat :=
  match Text.readInt (cs.filter isDigit) with
  | .ok n => n.toNat
  | .error _ => 1

def Bullet.ofLine (line : String) : Bullet :=
  let cs := Text.stripBoth line.toList
  if "- Pattern type:".toList.isPrefixOf cs then .kind (stripped ((afterColon? cs).getD []))
  else if "- Line number".toList.isPrefixOf cs then .line (((afterColon? cs).map lineNumber).getD 1)
  else if "- Code snippet:".toList.isPrefixOf cs then .code (stripped ((afterColon? cs).getD []))
  else if "- Severity:".toList.isPrefixOf cs then .severity (Text.lower (stripped ((afterColon? cs).getD [])))
  else if "- Suggested".toList.isPrefixOf cs then
    match afterColon? cs with
    | some rest => .suggestion (stripped rest)
    | none => .broken
  else .other

/-- The text of a line by its number: the last one for zero, nothing beyond the last. -/
def lineText (lines : List String) (number : Nat) : String :=
  match number with
  | 0 => lines.getLast?.getD ""
  | n + 1 => lines[n]?.getD ""

def Draft.finding (d : Draft) (file : String) (lines : List String) (count : Nat) : Finding :=
  let line := d.line.getD 1
  let suggestion := d.suggestion.getD ""
  { id := "llm_" ++ toString count, kind := d.kind.getD "unknown", description := suggestion,
    place := ⟨file, line, line, 0, 0⟩, code := d.code.getD (lineText lines line),
    severity := d.severity.getD "warning", fix := suggestion }

/-- The issues of the bullets that follow, a draft and the number of issues before it being given. -/
def issuesFrom (file : String) (lines : List String) (draft : Draft) (count : Nat) : List Bullet → Partial Finding
  | [] => if draft = {} then ⟨[], none⟩ else ⟨[draft.finding file lines count], none⟩
  | .kind text :: rest =>
    if draft = {} then issuesFrom file lines { kind := text } count rest
    else .cons (draft.finding file lines count) (issuesFrom file lines { kind := text } (count + 1) rest)
  | .line number :: rest => issuesFrom file lines { draft with line := number } count rest
  | .code text :: rest => issuesFrom file lines { draft with code := text } count rest
  | .severity text :: rest => issuesFrom file lines { draft with severity := text } count rest
  | .suggestion text :: rest => issuesFrom file lines { draft with suggestion := text } count rest
  | .broken :: _ => ⟨[], some .noSuchItem⟩
  | .other :: rest => issuesFrom file lines draft count rest

def issues (answer file content : String) : Partial Finding :=
  if Text.contains answer noIssues then ⟨[], none⟩
  else issuesFrom file (Text.lines content) {} 0 ((Text.lines answer).map Bullet.ofLine)

end CodeMigration.Assistant
