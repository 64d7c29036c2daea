import CodeMigration.Docs.Server
import CodeMigration.Outside

/-! # Asking for documentation

A client asks a server for guides and samples. Documentation is a help and not a need: whatever goes wrong,
the caller gets a default. -/

namespace CodeMigration.Docs

open Json (Value)

def isUnreserved (n : Nat) : Bool :=
  Text.isAsciiAlpha n || Text.isAsciiDigit n || n == 45 || n == 46 || n == 95 || n == 126

def escapeByte (b : UInt8) : List Char :=
  let digit (n : Nat) : Char := Char.ofNat (if n < 10 then 48 + n else 55 + n)
  ['%', digit (b.toNat / 16), digit (b.toNat % 16)]

/-- Escapes each byte of a text that is no character to keep. -/
def escape (keep : Nat → Bool) (cs : List Char) : List Char :=
  cs.flatMap fun c =>
    if keep c.toNat then [c] else (Text.encode (String.ofList [c])).flatMap escapeByte

def queryText (s : String) : String := String.ofList (escape isUnreserved s.toList)

def isPathChar (n : Nat) : Bool := isUnreserved n || "!$&'()*+,;=:/[]@".toList.any fun c => c.toNat == n

/-- A path with its odd characters escaped; escapes that are there already stay. The first `skip` characters belong
to one. -/
def escapePath : Nat → List Char → List Char
  | _, [] => []
  | skip + 1, c :: rest => c :: escapePath skip rest
  | 0, c :: rest =>
    match c, rest with
    | '%', a :: b :: _ =>
      if (hexDigit? a).isSome && (hexDigit? b).isSome then c :: escapePath 2 rest
      else escape isPathChar [c] ++ escapePath 0 rest
    | _, _ => escape isPathChar [c] ++ escapePath 0 rest

/-- A path without the parts that lead nowhere or back. -/
def plainPath (path : List Char) : List Char :=
  let step (done : List (List Char)) (part : List Char) : List (List Char) :=
    if part == ['.'] then done
    else if part == ['.', '.'] then (if done.isEmpty || done == [[]] then done else done.dropLast)
    else done ++ [part]
  ['/'].intercalate ((Text.splitChars '/' path).foldl step [])

def paramText : Value → String
  | .null => ""
  | .bool b => if b then "true" else "false"
  | v => v.show

def paramTexts : Value → List String
  | .array items => items.map paramText
  | v => [paramText v]

abbrev Params : Type := List (String × Value)

def queryOf (params : Params) : String :=
  "&".intercalate (params.flatMap fun (name, v) => (paramTexts v).map fun t => queryText name ++ "=" ++ queryText t)

structure Base where
  host : String
  /-- Without a slash at the end. -/
  path : List Char

def Base.ofString (url : String) : Base :=
  let isEnd (c : Char) : Bool := c == '/' || c == '?' || c == '#'
  let rest := match (splitScheme url.toList).2 with
    | '/' :: '/' :: rest => rest
    | rest => rest
  let netloc := rest.takeWhile (!isEnd ·)
  let path := (rest.dropWhile (!isEnd ·)).takeWhile fun c => c != '?' && c != '#'
  let host := (netloc.reverse.takeWhile (· != '@')).reverse
  let host := match host with
    | '[' :: inner => inner.takeWhile (· != ']')
    | host => host.takeWhile (· != ':')
  ⟨Text.lower (String.ofList host), (path.reverse.dropWhile (· == '/')).reverse⟩

/-- An address that is longer, or has a longer part, is none. -/
def addressLimit : Nat := 65536

/-- What a request for a path asks the server for; nothing if the path cannot be written in an address. -/
def Base.target? (b : Base) (path : String) (params : Params) : Option String :=
  let cs := path.toList
  if addressLimit < cs.length || cs.any fun c => c.toNat < 32 || c.toNat == 127 then none
  else
    let cs := cs.takeWhile (· != '#')
    let (path, query) := (cut? '?' cs).getD (cs, [])
    let old := (parameters (String.ofList query)).filter fun (name, _) => (params.lookup name).isNone
    let params := old.map (fun (name, t) => (name, Value.string t)) ++ params
    let path := escapePath 0 (b.path ++ '/' :: path.dropWhile (· == '/'))
    let query := queryOf params
    if addressLimit < path.length || addressLimit < query.length then none
    else some (String.ofList (plainPath path) ++ if params.isEmpty then "" else "?" ++ query)

structure Client where
  url : String
  enabled : Bool

def Client.ofSettings (s : Settings) (url : String := "") : Client :=
  ⟨if url.isEmpty then s.docsUrl else url, s.docsEnabled⟩

def valueOf? (status : Int) (body : Text.Bytes) : Option Value :=
  if 200 ≤ status && status < 300 then
    match Json.charsOf body with
    | .ok cs => (Json.ofChars cs).toOption
    | .error _ => none
  else none

namespace Client

/-- The value that a server answers with, if all goes well. A request with a value sends it. -/
def request (c : Client) (path : String) (params : Params) (sent : Option Value) : Act (Option Value) := do
  if c.enabled then
    let base := Base.ofString c.url
    match base.target? path params with
    | none => return none
    | some target =>
      let method := if sent.isSome then "POST" else "GET"
      match ← Act.observe (.requested method base.host target) Outside.docs with
      | .unreachable => return none
      | .fixed status body => return valueOf? status body
      | .library =>
        if lineLimit < (requestLine method target).length then return none
        let library := (← get).library
        let response := match sent with
          | some v =>
            let body := Text.encode v.write
            post target (some (toString body.length)) body
          | none => library.get target
        return response.toOption.bind fun r => valueOf? r.status r.bytes
  else return none

def member (c : Client) (path : String) (params : Params) (key : String) (default : Value) : Act Value := do
  match ← c.request path params none with
  | some (.object members) => return (members.lookup key).getD default
  | _ => return default

def style (c : Client) (language : Value := .string "python") : Act Value :=
  c.member "/api/style-guide" [("language", language)] "content" (.string "")

/-- The same for callers that wait. -/
def syncStyle (c : Client) (language : Value := .string "python") : Act Value :=
  c.member "/api/style-guide" [("language", language)] "content" (.string "")

def guide (c : Client) (source target : Value) : Act Value := do
  return (← c.request "/api/migration-guide" [("source", source), ("target", target)] none).getD (.object [])

def search (c : Client) (text : Value) (limit : Value := .int 5) : Act Value :=
  c.member "/api/search" [("q", text), ("limit", limit)] "results" (.array [])

def examples (c : Client) (pattern target : Value) : Act Value :=
  c.member "/api/examples" [("pattern", pattern), ("target", target)] "examples" (.array [])

def validate (c : Client) (code : Value) (language : Value := .string "python") : Act Value := do
  let valid : Value := .object [("valid", .bool true), ("issues", .array [])]
  return (← c.request "/api/validate" [] (some (.object [("code", code), ("language", language)]))).getD valid

def context (c : Client) (subject : Value) (params : Params) : Act Value :=
  c.member (contextPath ++ subject.show) params "content" (.string "")

end Client

end CodeMigration.Docs
