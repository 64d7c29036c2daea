import CodeMigration.CommandLine
import CodeMigration.Text.Wrap

/-! # Help on command lines -/

namespace CodeMigration.CommandLine

def blanks (n : Nat) : String := String.ofList (List.replicate n ' ')

/-- How a command is called, behind the name that it is called by. -/
def Command.pattern (c : Command) (isGroup : Bool) : String :=
  " ".intercalate ("[OPTIONS]" :: c.operand.toList ++ if isGroup then ["COMMAND", "[ARGS]..."] else [])

def usageLine (path : String) (c : Command) (isGroup : Bool) : String := "Usage: " ++ path ++ " " ++ c.pattern isGroup

def complaint (path : String) (c : Command) (isGroup : Bool) (fault : UsageFault) : String :=
  Text.unlines [usageLine path c isGroup, "Try '" ++ path ++ " --help' for help.", "", "Error: " ++ fault.message]

/-- Two columns: what is explained, and the explanation. The first is at most thirty characters wide; longer items have
a line of their own. -/
def definitions (width : Nat) (rows : List (String × String)) : List String :=
  let first := min ((rows.map fun (item, _) => item.length).foldl max 0) 30 + 2
  rows.flatMap fun (item, text) =>
    let lines := Text.wrap (max (width - first - 2) 10) text
    let rest := (lines.drop 1).map (blanks (first + 2) ++ ·)
    let head := lines.head?.getD ""
    if item.length + 2 ≤ first then ("  " ++ item ++ blanks (first - item.length) ++ head) :: rest
    else ("  " ++ item) :: (blanks (first + 2) ++ head) :: rest

def Opt.item (o : Opt) : String :=
  (match o.short with
    | some c => String.ofList ['-', c] ++ ", "
    | none => "") ++ o.long ++
  match o.takes with
  | .nothing => ""
  | .text word => " " ++ word
  | .oneOf choices => " [" ++ "|".intercalate choices ++ "]"

def Command.summary (c : Command) : String := (c.about.head?.map Prod.snd).getD ""

def aboutLines (width : Nat) (about : List (Nat × String)) : List String :=
  about.flatMap fun (indent, text) =>
    "" :: (Text.wrap (width - indent - 2) text).map (blanks (indent + 2) ++ ·)

def Command.help (c : Command) (width : Nat) (path : String) (below : List Command) : String :=
  Text.unlines (
    [usageLine path c (!below.isEmpty)] ++ aboutLines width c.about ++
    ["", "Options:"] ++ definitions width (c.allOptions.map fun o => (o.item, o.help)) ++
    if below.isEmpty then []
    else ["", "Commands:"] ++ definitions width (below.map fun b => (b.name, b.summary)))

end CodeMigration.CommandLine
