import CodeMigration.Outside

/-! # Agents

A planner finds what has to change, a coder changes it, and a tester checks the result. Each has the help of
the assistant where there is a key for it, and can do without. -/

namespace CodeMigration

inductive Agent where
  | planner | coder | tester

namespace Agent

def name : Agent → String
  | planner => "planner"
  | coder => "coder"
  | tester => "tester"

def tag : Agent → String
  | planner => "[PLANNER] "
  | coder => "[CODER] "
  | tester => "[TESTER] "

def aloneMode : Agent → String
  | planner | coder => "AST-only"
  | tester => "template-only"

/-- How freely the assistant may answer, in tenths. -/
def temperature : Agent → Nat
  | planner => 1
  | coder => 2
  | tester => 3

def role : Agent → String
  | planner => Assistant.plannerRole
  | coder => Assistant.coderRole
  | tester => Assistant.testerRole

def status : Agent → Status
  | planner => .planning
  | coder => .coding
  | tester => .testing

def greeting : Agent → String
  | planner => "Planner agent starting analysis..."
  | coder => "Coder agent generating fixes..."
  | tester => "Tester agent running validation tests..."

open Act

def start (a : Agent) : Act Unit := do
  updateMigration fun m => { m with status := a.status, agent := a.name }
  say "system" a.greeting

end Agent

/-- Whether there is a key for the assistant, and not the sample of one. -/
def Settings.hasKey (s : Settings) : Bool := 10 < s.apiKey.length && !"your-".toList.isPrefixOf s.apiKey.toList

def Agent.setUp (a : Agent) (s : Settings) : Act Bool := do
  if s.hasKey then
    match (← read).assistantFault with
    | some text =>
      Act.print (a.tag ++ "LLM initialization failed: " ++ text)
      return false
    | none => return true
  else
    Act.print (a.tag ++ "Running in " ++ a.aloneMode ++ " mode (no OpenAI API key configured)")
    return false

end CodeMigration
