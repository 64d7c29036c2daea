import CodeMigration.Failure

/-! # Addresses of repositories -/

namespace CodeMigration.RemoteUrl

def endsWith (cs ending : List Char) : Bool := ending.reverse.isPrefixOf cs.reverse

def dropRight (test : Char → Bool) (cs : List Char) : List Char := (cs.reverse.dropWhile test).reverse

def parts (cs : List Char) : List String := (Text.splitChars '/' cs).map String.ofList

def repoName (url : String) : String :=
  let cs := url.toList
  let cs := if endsWith cs ".git".toList then cs.take (cs.length - 4) else cs
  (parts (dropRight (· == '/') cs)).getLast?.getD ""

def withToken (token url : String) : String :=
  if token.isEmpty then url
  else if "https://".toList.isPrefixOf url.toList then Text.replace url "https://" ("https://" ++ token ++ "@")
  else url

/-- Whether a character is dropped from the end of an address. -/
def isTail (c : Char) : Bool := c == '.' || c == 'g' || c == 'i' || c == 't'

def owner (url : String) : Except Failure (String × String) :=
  let cs := url.toList
  if "https://".toList.isPrefixOf cs then
    match (parts (dropRight isTail cs)).reverse with
    | name :: owner :: _ => .ok (owner, name)
    | _ => .error .noSuchItem
  else if "git@".toList.isPrefixOf cs then
    match Text.splitChars ':' cs with
    | _ :: path :: _ =>
      match parts (dropRight isTail path) with
      | owner :: name :: _ => .ok (owner, name)
      | _ => .error .noSuchItem
    | _ => .error .noSuchItem
  else .error (.unknownRemote url)

end CodeMigration.RemoteUrl
