import CodeMigration.Docs.Library
import CodeMigration.Docs.Target
import CodeMigration.Json.Bytes

/-! # Answering requests for documentation -/

namespace CodeMigration.Docs

open Json (Value)

structure Response where
  status : Nat
  body : Value

def Response.bytes (r : Response) : Text.Bytes := Text.encode r.body.write

def ok (body : Value) : Response := ⟨200, body⟩

def refuse (status : Nat) (message : String) : Response := ⟨status, .object [("error", .string message)]⟩

def integerOf (text : String) : Except Failure Int :=
  match Text.readInt text.toList with
  | .ok n => .ok n
  | .error .malformed => .error (.notInteger text)
  | .error (.tooLong digits) => .error (.longInteger digits)

def hit (title url snippet : String) : Value :=
  .object [("title", .string title), ("url", .string url), ("snippet", .string snippet)]

/-- What a search finds: pages with words one of which has to be in the text. -/
def pages : List (List String × Value) := [
  (["python", "py3"], hit "Python 3 Migration Best Practices" "/docs/python3-migration"
    "Guide for migrating Python 2 code to Python 3..."),
  (["flask", "fastapi"], hit "FastAPI Migration Guide" "/docs/fastapi-migration"
    "How to migrate Flask applications to FastAPI..."),
  (["style", "guide"], hit "Company Style Guide" "/docs/style-guide" "Official coding style guidelines...")]

def search (text : String) (limit : Int) : List Value :=
  let text := Text.lower text
  Text.upTo limit ((pages.filter fun (words, _) => words.any (Text.contains text)).map Prod.snd)

def contextPath : String := "/api/context/"

namespace Library

def get (lib : Library) (target : String) : Except Failure Response := do
  let target ← Target.ofString target
  let params := parameters target.query
  let param (name default : String) : String := (params.lookup name).getD default
  match target.path with
  | "/api/style-guide" => return ok (.object [("content", .string (lib.style (param "language" "python")))])
  | "/api/migration-guide" => return ok (lib.guide (param "source" "") (param "target" ""))
  | "/api/search" =>
    let limit ← integerOf (param "limit" "5")
    return ok (.object [("results", .array (search (param "q" "") limit))])
  | "/api/examples" => return ok (.object [("examples", lib.examplesOf (param "pattern" ""))])
  | "/health" => return ok (.object [("status", .string "healthy")])
  | path =>
    if contextPath.toList.isPrefixOf path.toList then
      return ok (.object [("content", .string ((notes.lookup (Text.replace path contextPath "")).getD ""))])
    else return refuse 404 "Not found"

end Library

def longest : Nat := 100

def issue (line : Nat) (message : String) : Value := .object [("line", .int line), ("message", .string message)]

def lineIssues (number : Nat) (line : String) : List Value :=
  (if longest < line.length then
    [issue number ("Line exceeds " ++ toString longest ++ " characters (" ++ toString line.length ++ ")")] else []) ++
  (if line.toList.contains '\t' then [issue number "Use spaces instead of tabs"] else [])

def codeIssues (code : String) : List Value :=
  ((Text.lines code).mapIdx fun i line => lineIssues (i + 1) line).flatten

def isText (v : Value) (text : String) : Bool :=
  match v with
  | .string s => s == text
  | _ => false

def check (request : Value) : Except Failure Response :=
  match request with
  | .object members => do
    let code := (members.lookup "code").getD (.string "")
    let language := (members.lookup "language").getD (.string "python")
    let issues ← if isText language "python" then
        match code with
        | .string s => pure (codeIssues s)
        | v => .error (.noMember v.typeName "split")
      else pure []
    return ok (.object [("valid", .bool issues.isEmpty), ("issues", .array issues)])
  | v => .error (.noMember v.typeName "get")

/-- The length that a request gives; none counts as zero. -/
def lengthOf : Option String → Except Failure Int
  | some text => integerOf text
  | none => .ok 0

/-- Whether a number can count items, or say by a sign that all are meant. -/
def isCount (n : Int) : Bool := -0x8000000000000000 ≤ n && n < 0x8000000000000000

/-- The bytes of a request that its length covers; by -1 all are meant. -/
def bodyOf (length : Option String) (body : Text.Bytes) : Except Failure Text.Bytes := do
  let n ← lengthOf length
  if !isCount n then .error .noCount
  if n < -1 then .error .negativeCount
  return if n < 0 then body else body.take n.toNat

def checkBytes (bytes : Text.Bytes) : Except Failure Response :=
  match Json.charsOf bytes with
  | .error fault => .error (.undecodable fault)
  | .ok cs =>
    match Json.ofChars cs with
    | .ok request => check request
    | .error (.tooManyDigits count) => .error (.longInteger count)
    | .error .malformed => .ok (refuse 400 "Invalid JSON")

/-- Answers a request to check code; others are refused. -/
def post (target : String) (length : Option String) (body : Text.Bytes) : Except Failure Response := do
  let target ← Target.ofString target
  if target.path == "/api/validate" then
    let bytes ← bodyOf length body
    checkBytes bytes
  else return refuse 404 "Not found"

def requestLine (method target : String) : String := method ++ " " ++ target ++ " HTTP/1.1\r\n"

/-- A server refuses a request whose line is longer. -/
def lineLimit : Nat := 65536

/-- Slashes at the start of a target count as one. -/
def oneSlash (target : String) : String :=
  match target.toList with
  | '/' :: '/' :: rest => String.ofList ('/' :: rest.dropWhile (· == '/'))
  | _ => target

end CodeMigration.Docs
