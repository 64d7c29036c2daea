import CodeMigration.Text.Likeness
import CodeMigration.Text.Quoted
import CodeMigration.Text.Basic

/-! # Command lines

Options and operands of a command, and how arguments are read. -/

namespace CodeMigration.CommandLine

inductive Takes where
  | nothing
  | text (word : String)
  | oneOf (choices : List String)
  deriving DecidableEq

structure Opt where
  long : String
  short : Option Char := none
  takes : Takes := .nothing
  help : String

namespace Opt

def takesValue (o : Opt) : Bool := o.takes != .nothing

def hint (o : Opt) : String :=
  " / ".intercalate (Text.quote o.long :: (o.short.map fun c => Text.quote (String.ofList ['-', c])).toList)

end Opt

structure Command where
  name : String
  /-- The name of the one operand, if there has to be one. -/
  operand : Option String := none
  options : List Opt
  /-- What the command does, in paragraphs; each is moved in by some blanks. -/
  about : List (Nat × String)

def helpOption : Opt := { long := "--help", help := "Show this message and exit." }

def Command.allOptions (c : Command) : List Opt := c.options ++ [helpOption]

inductive UsageFault where
  | noSuchOption (name : String) (alike : List String)
  | needsValue (name : String)
  | takesNoValue (name : String)
  | notOneOf (option : Opt) (value : String) (choices : List String)
  | missingOperand (name : String)
  | extraOperands (operands : List String)
  | noSuchCommand (name : String)
  | missingCommand

def sorted (names : List String) : List String := names.mergeSort fun a b => decide (a ≤ b)

def UsageFault.message : UsageFault → String
  | noSuchOption name [] => "No such option: " ++ name
  | noSuchOption name [other] => "No such option: " ++ name ++ " Did you mean " ++ other ++ "?"
  | noSuchOption name others =>
    "No such option: " ++ name ++ " (Possible options: " ++ ", ".intercalate (sorted others) ++ ")"
  | needsValue name => "Option " ++ Text.quote name ++ " requires an argument."
  | takesNoValue name => "Option " ++ Text.quote name ++ " does not take a value."
  | notOneOf option value choices =>
    "Invalid value for " ++ option.hint ++ ": " ++ Text.quote value ++ " is not one of " ++
      ", ".intercalate (choices.map Text.quote) ++ "."
  | missingOperand name => "Missing argument '" ++ name ++ "'."
  | extraOperands [operand] => "Got unexpected extra argument (" ++ operand ++ ")"
  | extraOperands operands => "Got unexpected extra arguments (" ++ " ".intercalate operands ++ ")"
  | noSuchCommand name => "No such command " ++ Text.quote name ++ "."
  | missingCommand => "Missing command."

abbrev Given : Type := Opt × String

def alike (c : Command) (name : String) : List String :=
  (c.allOptions.map Opt.long).filter fun long => Text.isLike long name

/-- What an option and the next argument give, and whether that argument is used. -/
def withNext (o : Opt) (name : String) (next : Option String) : Except UsageFault (Given × Bool) :=
  if o.takesValue then
    match next with
    | some value => .ok ((o, value), true)
    | none => .error (.needsValue name)
  else .ok ((o, ""), false)

def readLong (o : Opt) (name : String) (value next : Option String) : Except UsageFault (Given × Bool) :=
  match value with
  | none => withNext o name next
  | some v => if o.takesValue then .ok ((o, v), false) else .error (.takesNoValue name)

/-- Reads options by their letters. What stands behind the letter of one that takes a value is its value. -/
def readLetters (c : Command) (next : Option String) : List Char → Except UsageFault (List Given × Bool)
  | [] => .ok ([], false)
  | letter :: rest => do
    let name := String.ofList ['-', letter]
    match c.allOptions.find? fun o => o.short == some letter with
    | none => .error (.noSuchOption name [])
    | some o =>
      if o.takesValue && !rest.isEmpty then return ([(o, String.ofList rest)], false)
      else
        let (given, usesNext) ← withNext o name next
        if o.takesValue then return ([given], usesNext)
        else
          let (others, usesNext) ← readLetters c next rest
          return (given :: others, usesNext)

def readOption (c : Command) (arg : String) (next : Option String) : Except UsageFault (List Given × Bool) :=
  let cs := arg.toList
  let name := String.ofList (cs.takeWhile (· != '='))
  let value := if cs.contains '=' then some (String.ofList ((cs.dropWhile (· != '=')).drop 1)) else none
  match c.allOptions.find? fun o => o.long == name with
  | some o => do
    let (given, usesNext) ← readLong o name value next
    return ([given], usesNext)
  | none =>
    if "--".toList.isPrefixOf cs then .error (.noSuchOption name (alike c name))
    else readLetters c next (cs.drop 1)

structure Scan where
  given : List Given := []
  operands : List String := []

def isOption (arg : String) : Bool := arg.toList.head? == some '-' && 1 < arg.length

/-- Reads arguments. Options may stand between operands if they are mixed, and end at the first operand if not. -/
def scan (c : Command) (mixed : Bool) : Nat → List String → Except UsageFault Scan
  | 0, args => .ok { operands := args }
  | _, [] => .ok {}
  | fuel + 1, arg :: rest =>
    if arg == "--" then .ok { operands := rest }
    else if isOption arg then do
      let (given, usesNext) ← readOption c arg rest.head?
      let s ← scan c mixed fuel (if usesNext then rest.drop 1 else rest)
      return { s with given := given ++ s.given }
    else if mixed then do
      let s ← scan c mixed fuel rest
      return { s with operands := arg :: s.operands }
    else .ok { operands := arg :: rest }

def Command.scan (c : Command) (mixed : Bool) (args : List String) : Except UsageFault Scan :=
  CommandLine.scan c mixed args.length args

def Scan.value? (s : Scan) (long : String) : Option String :=
  (s.given.reverse.find? fun (o, _) => o.long == long).map Prod.snd

def Scan.has (s : Scan) (long : String) : Bool := (s.value? long).isSome

/-- The first fault of a value, in the order in which options are given. -/
def Scan.valueFault? (s : Scan) : Option UsageFault :=
  s.given.findSome? fun (o, _) =>
    match o.takes, s.value? o.long with
    | .oneOf choices, some value => if choices.contains value then none else some (.notOneOf o value choices)
    | _, _ => none

def Command.check (c : Command) (s : Scan) : Except UsageFault Unit :=
  match s.valueFault? with
  | some fault => .error fault
  | none =>
    match c.operand, s.operands with
    | some name, [] => .error (.missingOperand name)
    | some _, _ :: [] => .ok ()
    | some _, _ :: extra => .error (.extraOperands extra)
    | none, [] => .ok ()
    | none, extra => .error (.extraOperands extra)

end CodeMigration.CommandLine
