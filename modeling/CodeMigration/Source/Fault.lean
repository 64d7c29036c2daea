import CodeMigration.Text.Class

/-! # Syntax faults

Why a text is no module, and how that is told. -/

namespace CodeMigration.Source

/-- The bases of number literals, by the names that messages use. -/
inductive NumberKind where
  | decimal | hexadecimal | octal | binary | imaginary
  deriving DecidableEq

def NumberKind.word : NumberKind → String
  | .decimal => "decimal"
  | .hexadecimal => "hexadecimal"
  | .octal => "octal"
  | .binary => "binary"
  | .imaginary => "imaginary"

inductive Cause where
  -- characters and tokens
  | nullByte
  | invalidCharacter (point : Nat)
  | unterminatedString (line : Nat)
  | unterminatedTriple (line : Nat)
  | invalidNumber (kind : NumberKind)
  | invalidDigit (digit : Char) (kind : NumberKind)
  | leadingZeros
  | tooManyDigits (count : Nat)
  | tooManyBrackets
  | unmatched (bracket : Char)
  | mismatched (closing opening : Char) (line : Option Nat)
  | neverClosed (bracket : Char)
  | unexpectedEnd
  | badUnindent
  | mixedTabs
  | tooManyIndents
  | afterContinuation
  -- string literals
  | nonAsciiBytes
  | mixedBytes
  | textEscape (first last : Nat) (reason : String)
  | byteEscape (position : Nat)
  | fstring (reason : String)
  | fstringPart (reason : String)
  | inFString (cause : Cause)
  -- shape
  | invalidSyntax
  | unexpectedIndent
  | unexpectedUnindent
  | expected (what : String)
  | expectedBlock
  | expectedBlockAfter (what : String) (line : Nat)
  | forgottenComma
  | expectedElse
  | missingParentheses (name : String)
  | maybeEqual
  | cannotAssign (what : String)
  | cannotAssignHere (what : String)
  | cannotDelete (what : String)
  | cannotWalrus (what : String)
  | assignToYield
  | illegalAugmented (what : String)
  | singleTarget (what : String)
  | illegalHint
  | assignmentInCall
  | unpackingAfterKeywords
  | positionalAfterUnpacking
  | positionalAfterKeyword
  | generatorParentheses
  | comprehensionUnpacking
  | comprehensionTarget
  | dictUnpacking
  | nonDefaultAfterDefault
  | parameterParentheses (lambda : Bool)
  | slashFirst
  | slashTwice
  | slashAfterStar
  | commaBeforeStar
  | expectedDefault
  | nothingAfterStar
  | starTwice
  | defaultOfRest
  | defaultOfKeywords
  | afterKeywords
  | exceptParentheses
  | expectedHandler
  | mixedHandlers
  | expectedExceptionTypes
  | trailingComma
  | starredHere
  | doubleStarredHere
  | colonAfterKey
  | valueAfterKey
  | starredValue
  | wildcardTarget
  | invalidPatternTarget
  | positionalAfterNamed
  | realRequired
  | imaginaryRequired

/-- A cause and the line that it is reported for, if any. -/
structure Fault where
  line : Option Nat
  cause : Cause

def hexPoint (n : Nat) : String :=
  let ds := (Nat.toDigits 16 n).map Char.toUpper
  String.ofList (List.replicate (4 - ds.length) '0' ++ ds)

def quoteChar (c : Char) : String := String.ofList ['\'', c, '\'']

namespace Cause

def message : Cause → String
  | nullByte => "source code string cannot contain null bytes"
  | invalidCharacter n =>
    if Text.isPrintable n then
      "invalid character " ++ quoteChar (Char.ofNat n) ++ " (U+" ++ hexPoint n ++ ")"
    else "invalid non-printable character U+" ++ hexPoint n
  | unterminatedString line => "unterminated string literal (detected at line " ++ toString line ++ ")"
  | unterminatedTriple line =>
    "unterminated triple-quoted string literal (detected at line " ++ toString line ++ ")"
  | invalidNumber kind => "invalid " ++ kind.word ++ " literal"
  | invalidDigit c kind => "invalid digit " ++ quoteChar c ++ " in " ++ kind.word ++ " literal"
  | leadingZeros =>
    "leading zeros in decimal integer literals are not permitted; use an 0o prefix for octal integers"
  | tooManyDigits count =>
    "Exceeds the limit (4300 digits) for integer string conversion: value has " ++ toString count ++
      " digits; use sys.set_int_max_str_digits() to increase the limit - Consider hexadecimal for huge " ++
      "integer literals to avoid decimal conversion limits."
  | tooManyBrackets => "too many nested parentheses"
  | unmatched c => "unmatched " ++ quoteChar c
  | mismatched c o line =>
    "closing parenthesis " ++ quoteChar c ++ " does not match opening parenthesis " ++ quoteChar o ++
      (match line with | some l => " on line " ++ toString l | none => "")
  | neverClosed c => quoteChar c ++ " was never closed"
  | unexpectedEnd => "unexpected EOF while parsing"
  | badUnindent => "unindent does not match any outer indentation level"
  | mixedTabs => "inconsistent use of tabs and spaces in indentation"
  | tooManyIndents => "too many levels of indentation"
  | afterContinuation => "unexpected character after line continuation character"
  | nonAsciiBytes => "bytes can only contain ASCII literal characters"
  | mixedBytes => "cannot mix bytes and nonbytes literals"
  | textEscape first last reason =>
    "(unicode error) 'unicodeescape' codec can't decode bytes in position " ++ toString first ++ "-" ++
      toString last ++ ": " ++ reason
  | byteEscape position => "(value error) invalid \\x escape at position " ++ toString position
  | fstring reason => "f-string: " ++ reason
  | fstringPart reason => "f-string expression part " ++ reason
  | inFString cause => "f-string: " ++ cause.message
  | invalidSyntax => "invalid syntax"
  | unexpectedIndent => "unexpected indent"
  | unexpectedUnindent => "unexpected unindent"
  | expected what => "expected " ++ what
  | expectedBlock => "expected an indented block"
  | expectedBlockAfter what line =>
    "expected an indented block after " ++ what ++ " on line " ++ toString line
  | forgottenComma => "invalid syntax. Perhaps you forgot a comma?"
  | expectedElse => "expected 'else' after 'if' expression"
  | missingParentheses name =>
    "Missing parentheses in call to '" ++ name ++ "'. Did you mean " ++ name ++ "(...)?"
  | maybeEqual => "invalid syntax. Maybe you meant '==' or ':=' instead of '='?"
  | cannotAssign what => "cannot assign to " ++ what
  | cannotAssignHere what =>
    "cannot assign to " ++ what ++ " here. Maybe you meant '==' instead of '='?"
  | cannotDelete what => "cannot delete " ++ what
  | cannotWalrus what => "cannot use assignment expressions with " ++ what
  | assignToYield => "assignment to yield expression not possible"
  | illegalAugmented what => "'" ++ what ++ "' is an illegal expression for augmented assignment"
  | singleTarget what => "only single target (not " ++ what ++ ") can be annotated"
  | illegalHint => "illegal target for annotation"
  | assignmentInCall => "expression cannot contain assignment, perhaps you meant \"==\"?"
  | unpackingAfterKeywords => "iterable argument unpacking follows keyword argument unpacking"
  | positionalAfterUnpacking => "positional argument follows keyword argument unpacking"
  | positionalAfterKeyword => "positional argument follows keyword argument"
  | generatorParentheses => "Generator expression must be parenthesized"
  | comprehensionUnpacking => "iterable unpacking cannot be used in comprehension"
  | comprehensionTarget => "did you forget parentheses around the comprehension target?"
  | dictUnpacking => "dict unpacking cannot be used in dict comprehension"
  | nonDefaultAfterDefault => "non-default argument follows default argument"
  | parameterParentheses lambda =>
    (if lambda then "Lambda expression" else "Function") ++ " parameters cannot be parenthesized"
  | slashFirst => "at least one argument must precede /"
  | slashTwice => "/ may appear only once"
  | slashAfterStar => "/ must be ahead of *"
  | commaBeforeStar => "expected comma between / and *"
  | expectedDefault => "expected default value expression"
  | nothingAfterStar => "named arguments must follow bare *"
  | starTwice => "* argument may appear only once"
  | defaultOfRest => "var-positional argument cannot have default value"
  | defaultOfKeywords => "var-keyword argument cannot have default value"
  | afterKeywords => "arguments cannot follow var-keyword argument"
  | exceptParentheses => "multiple exception types must be parenthesized"
  | expectedHandler => "expected 'except' or 'finally' block"
  | mixedHandlers => "cannot have both 'except' and 'except*' on the same 'try'"
  | expectedExceptionTypes => "expected one or more exception types"
  | trailingComma => "trailing comma not allowed without surrounding parentheses"
  | starredHere => "cannot use starred expression here"
  | doubleStarredHere => "cannot use double starred expression here"
  | colonAfterKey => "':' expected after dictionary key"
  | valueAfterKey => "expression expected after dictionary key and ':'"
  | starredValue => "cannot use a starred expression in a dictionary value"
  | wildcardTarget => "cannot use '_' as a target"
  | invalidPatternTarget => "invalid pattern target"
  | positionalAfterNamed => "positional patterns follow keyword patterns"
  | realRequired => "real number required in complex literal"
  | imaginaryRequired => "imaginary number required in complex literal"

end Cause

def Fault.message (f : Fault) : String := f.cause.message

end CodeMigration.Source
