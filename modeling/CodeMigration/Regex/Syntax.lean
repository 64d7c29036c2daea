import CodeMigration.Text.Quoted

/-! # Regular expressions -/

namespace CodeMigration.Regex

structure Flags where
  ignoreCase : Bool := false
  multiline : Bool := false
  dotAll : Bool := false
  verbose : Bool := false
  ascii : Bool := false
  unicode : Bool := false
  template : Bool := false
  deriving DecidableEq

namespace Flags

def union (a b : Flags) : Flags :=
  ⟨a.ignoreCase || b.ignoreCase, a.multiline || b.multiline, a.dotAll || b.dotAll, a.verbose || b.verbose,
    a.ascii || b.ascii, a.unicode || b.unicode, a.template || b.template⟩

def inter (a b : Flags) : Flags :=
  ⟨a.ignoreCase && b.ignoreCase, a.multiline && b.multiline, a.dotAll && b.dotAll, a.verbose && b.verbose,
    a.ascii && b.ascii, a.unicode && b.unicode, a.template && b.template⟩

def without (a b : Flags) : Flags :=
  ⟨a.ignoreCase && !b.ignoreCase, a.multiline && !b.multiline, a.dotAll && !b.dotAll, a.verbose && !b.verbose,
    a.ascii && !b.ascii, a.unicode && !b.unicode, a.template && !b.template⟩

def isEmpty (a : Flags) : Bool := a == {}

/-- Whether characters are classified by one of the two alphabets. -/
def isTyped (a : Flags) : Bool := a.ascii || a.unicode

/-- The flags inside a group that turns some on and others off. -/
def combine (flags add del : Flags) : Flags :=
  let flags := if add.isTyped then { flags with ascii := false, unicode := false } else flags
  (flags.union add).without del

def ofLetter? : Char → Option Flags
  | 'i' => some { ignoreCase := true }
  | 'm' => some { multiline := true }
  | 's' => some { dotAll := true }
  | 'x' => some { verbose := true }
  | 'a' => some { ascii := true }
  | 't' => some { template := true }
  | 'u' => some { unicode := true }
  | _ => none

end Flags

inductive Category where
  | digit | space | word
  deriving DecidableEq

inductive SetItem where
  | point (n : Nat)
  | range (lo hi : Nat)
  | category (c : Category) (negated : Bool)
  deriving DecidableEq

inductive Anchor where
  | start | finish | startOfText | endOfText | boundary | noBoundary

inductive RepeatKind where
  | greedy | reluctant | possessive
  deriving DecidableEq

inductive Node where
  | point (n : Nat)
  | notPoint (n : Nat)
  | any
  | set (negated : Bool) (items : List SetItem)
  | anchor (a : Anchor)
  | branch (choices : List (List Node))
  | group (index : Option Nat) (add del : Flags) (body : List Node)
  | times (kind : RepeatKind) (least : Nat) (most : Option Nat) (body : List Node)
  | look (ahead negated : Bool) (body : List Node)
  | reference (group : Nat)
  | condition (group : Nat) (yes : List Node) (no : Option (List Node))
  | atomic (body : List Node)

instance : Inhabited Node := ⟨.any⟩

inductive Cause where
  | escapeAtEnd
  | missing (what : String)
  | unterminatedName (terminator : Char)
  | badGroupName (name : String)
  | incompleteEscape (escape : String)
  | missingBrace
  | undefinedCharacter (name : String)
  | octalTooLarge (escape : String)
  | badEscape (escape : String)
  | openGroup
  | lookbehindGroup
  | invalidReference (group : Nat)
  | unterminatedSet
  | badRange (lo hi : String)
  | repeatOrder
  | nothingToRepeat
  | multipleRepeat
  | unexpectedEnd
  | unknownName (name : String)
  | unknownExtension (text : String)
  | unterminatedComment
  | unterminatedGroup
  | badGroupNumber
  | twoBranches
  | globalFlags
  | redefinition (name : String) (group before : Nat)
  | localeFlag
  | incompatibleFlags
  | unknownFlag
  | turnOnGlobal
  | turnOffTyped
  | turnOffGlobal
  | onAndOff
  | unbalanced
  | variableLookbehind
  | farLookbehind
  | templateRepeat (kind : RepeatKind)
  | bothAlphabets
  | repeatTooLarge
  | tooManyDigits (count : Nat)

def RepeatKind.name : RepeatKind → String
  | greedy => "MAX_REPEAT"
  | reluctant => "MIN_REPEAT"
  | possessive => "POSSESSIVE_REPEAT"

def Cause.message : Cause → String
  | escapeAtEnd => "bad escape (end of pattern)"
  | missing what => "missing " ++ what
  | unterminatedName terminator => "missing " ++ String.ofList [terminator] ++ ", unterminated name"
  | badGroupName name => "bad character in group name " ++ Text.quote name
  | incompleteEscape escape => "incomplete escape " ++ escape
  | missingBrace => "missing \x7b"
  | undefinedCharacter name => "undefined character name " ++ Text.quote name
  | octalTooLarge escape => "octal escape value " ++ escape ++ " outside of range 0-0o377"
  | badEscape escape => "bad escape " ++ escape
  | openGroup => "cannot refer to an open group"
  | lookbehindGroup => "cannot refer to group defined in the same lookbehind subpattern"
  | invalidReference group => "invalid group reference " ++ toString group
  | unterminatedSet => "unterminated character set"
  | badRange lo hi => "bad character range " ++ lo ++ "-" ++ hi
  | repeatOrder => "min repeat greater than max repeat"
  | nothingToRepeat => "nothing to repeat"
  | multipleRepeat => "multiple repeat"
  | unexpectedEnd => "unexpected end of pattern"
  | unknownName name => "unknown group name " ++ Text.quote name
  | unknownExtension text => "unknown extension ?" ++ text
  | unterminatedComment => "missing ), unterminated comment"
  | unterminatedGroup => "missing ), unterminated subpattern"
  | badGroupNumber => "bad group number"
  | twoBranches => "conditional backref with more than two branches"
  | globalFlags => "global flags not at the start of the expression"
  | redefinition name group before =>
    "redefinition of group name " ++ Text.quote name ++ " as group " ++ toString group ++ "; was group " ++
      toString before
  | localeFlag => "bad inline flags: cannot use 'L' flag with a str pattern"
  | incompatibleFlags => "bad inline flags: flags 'a', 'u' and 'L' are incompatible"
  | unknownFlag => "unknown flag"
  | turnOnGlobal => "bad inline flags: cannot turn on global flag"
  | turnOffTyped => "bad inline flags: cannot turn off flags 'a', 'u' and 'L'"
  | turnOffGlobal => "bad inline flags: cannot turn off global flag"
  | onAndOff => "bad inline flags: flag turned on and off"
  | unbalanced => "unbalanced parenthesis"
  | variableLookbehind => "look-behind requires fixed-width pattern"
  | farLookbehind => "looks too much behind"
  | templateRepeat kind => "internal: unsupported template operator " ++ kind.name
  | bothAlphabets => "ASCII and UNICODE flags are incompatible"
  | repeatTooLarge => "the repetition number is too large"
  | tooManyDigits count =>
    "Exceeds the limit (4300 digits) for integer string conversion: value has " ++ toString count ++
      " digits; use sys.set_int_max_str_digits() to increase the limit"

/-- A cause and the place in the pattern that is to blame, if there is one. -/
structure Fault where
  cause : Cause
  position : Option Nat

/-- A fault with its place; in a pattern of several lines the line and the column are told too. -/
def Fault.message (pattern : List Char) (f : Fault) : String :=
  match f.position with
  | none => f.cause.message
  | some pos =>
    let text := f.cause.message ++ " at position " ++ toString pos
    if pattern.contains '\n' then
      let before := pattern.take pos
      let line := before.count '\n' + 1
      let column := if before.contains '\n' then (before.reverse.takeWhile (· != '\n')).length + 1 else pos + 1
      text ++ " (line " ++ toString line ++ ", column " ++ toString column ++ ")"
    else text

end CodeMigration.Regex
