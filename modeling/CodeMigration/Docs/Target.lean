import CodeMigration.Failure
import CodeMigration.Text.Case

/-! # Targets of requests

The path that a request asks for and the parameters behind it. -/

namespace CodeMigration.Docs

structure Target where
  path : String
  query : String

/-- The text before and behind the first of a character. -/
def cut? (c : Char) (cs : List Char) : Option (List Char × List Char) :=
  match cs.dropWhile (· != c) with
  | [] => none
  | _ :: rest => some (cs.takeWhile (· != c), rest)

def isSchemeChar (c : Char) : Bool :=
  let n := c.toNat
  Text.isAsciiAlpha n || Text.isAsciiDigit n || c == '+' || c == '-' || c == '.'

def splitScheme (cs : List Char) : String × List Char :=
  match cut? ':' cs with
  | some (c :: scheme, rest) =>
    if Text.isAsciiAlpha c.toNat && scheme.all isSchemeChar then (Text.lower (String.ofList (c :: scheme)), rest)
    else ("", cs)
  | _ => ("", cs)

/-- Schemes whose paths have parameters behind a semicolon. -/
def withParameters : List String :=
  ["", "ftp", "hdl", "prospero", "http", "https", "shttp", "rtsp", "rtspu", "sip", "sips", "mms", "sftp", "tel"]

/-- A path without what stands behind a semicolon in its last part. -/
def dropParameters (cs : List Char) : List Char :=
  let last := (cs.reverse.takeWhile (· != '/')).reverse
  cs.take (cs.length - last.length) ++ last.takeWhile (· != ';')

def isHex (c : Char) : Bool :=
  let n := c.toNat
  Text.isAsciiDigit n || ('a' ≤ c && c ≤ 'f') || ('A' ≤ c && c ≤ 'F')

def isOctet (cs : List Char) : Bool :=
  !cs.isEmpty && cs.length ≤ 3 && cs.all (fun c => Text.isAsciiDigit c.toNat) && (cs.length == 1 || cs.head? != some '0') &&
    cs.foldl (fun n c => n * 10 + (c.toNat - 48)) 0 ≤ 255

def isAddress4 (cs : List Char) : Bool :=
  let parts := Text.splitChars '.' cs
  parts.length == 4 && parts.all isOctet

def isGroup (cs : List Char) : Bool := !cs.isEmpty && cs.length ≤ 4 && cs.all isHex

/-- Groups of four hexadecimal digits; an empty one stands for zeros. -/
def isAddress6 (cs : List Char) : Bool :=
  let (cs, zone) := match cut? '%' cs with
    | some (cs, zone) => (cs, some zone)
    | none => (cs, none)
  let groups := Text.splitChars ':' cs
  let (groups, plain) := match groups.getLast? with
    | some last =>
      if last.contains '.' then (groups.dropLast ++ [['0'], ['0']], isAddress4 last) else (groups, true)
    | none => (groups, true)
  let inner := (groups.drop 1).dropLast
  let gaps := inner.countP List.isEmpty
  let first := groups.head?.getD []
  let last := groups.getLast?.getD []
  plain && zone.all (fun z => !z.isEmpty && !z.contains '%') && 3 ≤ groups.length && groups.length ≤ 9 && gaps ≤ 1 &&
    (if gaps == 1 then
      let front := if first.isEmpty then 0 else (groups.takeWhile (!·.isEmpty)).length
      let back := if last.isEmpty then 0 else (groups.reverse.takeWhile (!·.isEmpty)).length
      (!first.isEmpty || (groups[1]?.getD ['x']).isEmpty) && (!last.isEmpty || (groups.reverse[1]?.getD ['x']).isEmpty) &&
        front + back < 8 && groups.all (fun g => g.isEmpty || isGroup g)
    else groups.length == 8 && groups.all isGroup)

/-- An address of a later version: a `v`, its number and a point in front. -/
def isFutureAddress (cs : List Char) : Bool :=
  match cs with
  | 'v' :: rest =>
    let digits := rest.takeWhile isHex
    !digits.isEmpty && match rest.dropWhile isHex with
      | '.' :: d :: more => (d :: more).all (· != '\n')
      | _ => false
  | _ => false

def checkHost (netloc : List Char) : Except Failure Unit :=
  if netloc.contains '[' != netloc.contains ']' then .error (.address .brackets)
  else if netloc.contains '[' then
    let host := ((cut? '[' netloc).map Prod.snd).getD []
    let host := ((cut? ']' host).map Prod.fst).getD host
    if host.head? == some 'v' then (if isFutureAddress host then .ok () else .error (.address .future))
    else if isAddress4 host then .error (.address .bracketed4)
    else if isAddress6 host then .ok ()
    else .error (.address (.neither (String.ofList host)))
  else .ok ()

/-- Characters whose compatibility compositions have a mark that divides an address. -/
def dividingForms : List Nat :=
  [0x2047, 0x2048, 0x2049, 0x2100, 0x2101, 0x2105, 0x2106, 0x2A74, 0xFE13, 0xFE16, 0xFE55, 0xFE56, 0xFE5F, 0xFE6B,
   0xFF03, 0xFF0F, 0xFF1A, 0xFF1F, 0xFF20]

def checkForms (netloc : List Char) : Except Failure Unit :=
  if netloc.any fun c => dividingForms.contains c.toNat then .error (.address (.divided (String.ofList netloc)))
  else .ok ()

/-- The host behind two slashes, if there is one, and what follows it. -/
def splitHost : List Char → List Char × List Char
  | '/' :: '/' :: rest =>
    let isEnd (c : Char) : Bool := c == '/' || c == '?' || c == '#'
    (rest.takeWhile (!isEnd ·), rest.dropWhile (!isEnd ·))
  | cs => ([], cs)

def Target.ofChars (scheme : String) (cs : List Char) : Target :=
  let cs := cs.takeWhile (· != '#')
  let (path, query) := (cut? '?' cs).getD (cs, [])
  ⟨String.ofList (if withParameters.contains scheme then dropParameters path else path), String.ofList query⟩

/-- Splits an address into the parts that matter to a server. -/
def Target.ofString (url : String) : Except Failure Target := do
  let cs := url.toList.dropWhile fun c => c.toNat ≤ 32
  let cs := cs.filter fun c => c != '\t' && c != '\r' && c != '\n'
  let (scheme, cs) := splitScheme cs
  let (netloc, cs) := splitHost cs
  checkHost netloc
  checkForms netloc
  return .ofChars scheme cs

def hexDigit? (c : Char) : Option Nat :=
  if '0' ≤ c && c ≤ '9' then some (c.toNat - 48)
  else if 'a' ≤ c && c ≤ 'f' then some (c.toNat - 87)
  else if 'A' ≤ c && c ≤ 'F' then some (c.toNat - 55)
  else none

/-- Bytes of ASCII characters, with percent signs and two digits for others; `skip` characters are digits already
read. -/
def percentBytes : Nat → List Char → Text.Bytes
  | _, [] => []
  | skip + 1, _ :: rest => percentBytes skip rest
  | 0, c :: rest =>
    if c == '%' then
      match rest with
      | a :: b :: _ =>
        match hexDigit? a, hexDigit? b with
        | some a, some b => UInt8.ofNat (a * 16 + b) :: percentBytes 2 rest
        | _, _ => UInt8.ofNat 37 :: percentBytes 0 rest
      | _ => UInt8.ofNat 37 :: percentBytes 0 rest
    else UInt8.ofNat c.toNat :: percentBytes 0 rest

/-- The text that percent signs stand for; what is no text is marked. -/
def unquote (cs : List Char) : String :=
  let runs := cs.splitBy fun a b => (a.toNat < 128) == (b.toNat < 128)
  String.ofList (runs.flatMap fun run =>
    if run.all (·.toNat < 128) then Text.decodeOr [Char.ofNat 0xFFFD] 0 (percentBytes 0 run) else run)

def plusToBlank (cs : List Char) : List Char := cs.map fun c => if c == '+' then ' ' else c

/-- The parameters of a query; those without a value are left out. -/
def parameters (query : String) : List (String × String) :=
  (Text.splitChars '&' query.toList).filterMap fun piece =>
    match cut? '=' piece with
    | some (name, value) =>
      if value.isEmpty then none else some (unquote (plusToBlank name), unquote (plusToBlank value))
    | none => none

end CodeMigration.Docs
