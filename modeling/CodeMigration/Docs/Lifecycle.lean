import CodeMigration.Docs.Server
import CodeMigration.Outside

/-! # Running the documentation server -/

namespace CodeMigration.Docs

structure Server where
  host : String := "localhost"
  tcpPort : Json.Value := .int 3000
  running : Bool := false

namespace Server

def start (s : Server) : Act Server := do
  match ← Act.observe (.listened s.host s.tcpPort) Outside.listenFault with
  | some text => Act.fail (.system text)
  | none =>
    Act.print ("MCP Server running on http://" ++ s.host ++ ":" ++ s.tcpPort.show)
    Act.record .served
    return { s with running := true }

def stop (s : Server) : Act Server := do
  if s.running then Act.record .stopped
  return { s with running := false }

/-- Starts in the background; nobody hears of a failure. -/
def enter (s : Server) : Act Server := do
  match ← Act.attempt s.start with
  | .ok s => return s
  | .error _ => return s

end Server

/-- Runs a server for everyone, listening where the environment says. -/
def serveAll (env : Environment) : Act Unit := do
  let number ← match env.lookup "MCP_PORT" with
    | some text => Act.result (integerOf text)
    | none => pure 3000
  let s : Server := { host := "0.0.0.0", tcpPort := .int number }
  Act.print ("Starting MCP server on port " ++ toString number)
  let _ ← s.start

end CodeMigration.Docs
