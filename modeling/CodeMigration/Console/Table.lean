import CodeMigration.Console.Markup
import CodeMigration.Outside

/-! # What a plain console shows -/

namespace CodeMigration.Console

/-- The characters of a line across a table: its ends, what fills it and where columns meet. -/
structure Rule where
  left : String
  fill : Char
  middle : String
  right : String

def topRule : Rule := ⟨"┏", '━', "┳", "┓"⟩

def headRule : Rule := ⟨"┡", '━', "╇", "┩"⟩

def bottomRule : Rule := ⟨"└", '─', "┴", "┘"⟩

def Rule.line (r : Rule) (widths : List Nat) : String :=
  r.left ++ r.middle.intercalate (widths.map fun n => String.ofList (List.replicate (n + 2) r.fill)) ++ r.right

def padded (n : Nat) (s : String) : String := s ++ String.ofList (List.replicate (n - s.length) ' ')

def centred (n : Nat) (s : String) : String :=
  padded n (String.ofList (List.replicate ((n - s.length) / 2) ' ') ++ s)

def rowLine (bar : String) (widths : List Nat) (cells : List String) : String :=
  bar ++ bar.intercalate ((widths.zip cells).map fun (n, cell) => " " ++ padded n cell ++ " ") ++ bar

def columnWidths (rows : List (List String)) : List Nat :=
  let columns := (rows.map List.length).foldl max 0
  (List.range columns).map fun i => (rows.map fun row => (row[i]?.getD "").length).foldl max 0

def tableLines (t : Table) : List String :=
  let head := t.columns.map fun (name, _) => plain name
  let rows := t.rows.map fun row => row.map plain
  let widths := columnWidths (head :: rows)
  let width := widths.foldr (· + 3 + ·) 1
  [centred width (plain t.title), topRule.line widths, rowLine "┃" widths head, headRule.line widths] ++
    rows.map (rowLine "│" widths) ++ [bottomRule.line widths]

def columns : Nat := 80

/-- What an event shows. A task is shown at its end, with a blank line behind it. -/
def shownEvent : Event → String
  | .wrote text => text
  | .printed text => shown columns text
  | .tabled t => String.join ((tableLines t).map (· ++ "\n"))
  | .closed task => "⠋ " ++ task ++ "\n\n"
  | _ => ""

def screen (log : Log) : String := String.join (log.map shownEvent)

def complaints (log : Log) : String := String.join (log.map fun
  | .complained text => text
  | _ => "")

end CodeMigration.Console
