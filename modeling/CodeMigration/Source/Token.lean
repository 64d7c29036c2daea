import CodeMigration.Source.Tree
import CodeMigration.Source.Fault

/-! # Tokens -/

namespace CodeMigration.Source

/-- Operators and delimiters. `other` is a printable character that no construct uses. -/
inductive Symbol where
  | lpar | rpar | lsqb | rsqb | lbrace | rbrace
  | colon | comma | semi | dot | ellipsis | arrow | at | equal | walrus
  | plus | minus | star | slash | doubleSlash | percent | doubleStar
  | vbar | amper | circumflex | tilde | leftShift | rightShift
  | less | greater | eqEqual | notEqual | diamond | lessEqual | greaterEqual
  | plusEqual | minusEqual | starEqual | slashEqual | doubleSlashEqual | percentEqual | doubleStarEqual
  | atEqual | vbarEqual | amperEqual | circumflexEqual | leftShiftEqual | rightShiftEqual
  | other
  deriving DecidableEq

inductive Word where
  | false_ | none_ | true_ | and_ | as_ | assert_ | async_ | await_ | break_ | class_ | continue_ | def_
  | del_ | elif_ | else_ | except_ | finally_ | for_ | from_ | global_ | if_ | import_ | in_ | is_
  | lambda_ | nonlocal_ | not_ | or_ | pass_ | raise_ | return_ | try_ | while_ | with_ | yield_
  deriving DecidableEq

def Word.ofString? : String → Option Word
  | "False" => some .false_
  | "None" => some .none_
  | "True" => some .true_
  | "and" => some .and_
  | "as" => some .as_
  | "assert" => some .assert_
  | "async" => some .async_
  | "await" => some .await_
  | "break" => some .break_
  | "class" => some .class_
  | "continue" => some .continue_
  | "def" => some .def_
  | "del" => some .del_
  | "elif" => some .elif_
  | "else" => some .else_
  | "except" => some .except_
  | "finally" => some .finally_
  | "for" => some .for_
  | "from" => some .from_
  | "global" => some .global_
  | "if" => some .if_
  | "import" => some .import_
  | "in" => some .in_
  | "is" => some .is_
  | "lambda" => some .lambda_
  | "nonlocal" => some .nonlocal_
  | "not" => some .not_
  | "or" => some .or_
  | "pass" => some .pass_
  | "raise" => some .raise_
  | "return" => some .return_
  | "try" => some .try_
  | "while" => some .while_
  | "with" => some .with_
  | "yield" => some .yield_
  | _ => none

inductive Kind where
  | name
  | number
  | string
  | symbol (symbol : Symbol)
  | word (word : Word)
  | newline
  | indent
  | dedent
  | finish
  deriving DecidableEq, Inhabited

/-- A token with its text, its place, the number of brackets open after it and its number. -/
structure Token where
  kind : Kind
  text : String
  span : Span
  depth : Nat
  index : Nat
  deriving Inhabited

def Kind.isLayout : Kind → Bool
  | .newline | .indent | .dedent | .finish => true
  | _ => false

inductive StopReason where
  | fault (cause : Cause)
  | endOfText
  | badUnindent
  | mixedTabs
  | tooManyIndents
  | afterContinuation

/-- Where the tokens stop, with the innermost bracket open there and its line. -/
structure Stop where
  reason : StopReason
  line : Nat
  bracket : Option (Char × Nat)

def Stop.fault (s : Stop) : Fault :=
  match s.reason with
  | .fault c => ⟨some s.line, c⟩
  | .endOfText =>
    match s.bracket with
    | some (c, line) => ⟨some line, .neverClosed c⟩
    | none => ⟨some s.line, .unexpectedEnd⟩
  | .badUnindent => ⟨some s.line, .badUnindent⟩
  | .mixedTabs => ⟨some s.line, .mixedTabs⟩
  | .tooManyIndents => ⟨some s.line, .tooManyIndents⟩
  | .afterContinuation => ⟨some s.line, .afterContinuation⟩

/-- The fault that a stop puts in the place of one found before it by a reader that came as far as
`line`: always the lexer's own, an open bracket only if it was opened on an earlier line. -/
def Stop.overriding? (s : Stop) (line : Nat) : Option Fault :=
  match s.reason, s.bracket with
  | .fault c, _ => some ⟨some s.line, c⟩
  | _, some (c, l) => if l < line then some ⟨some l, .neverClosed c⟩ else none
  | _, none => none

/-- The tokens of a text, up to the end marker or to the stop. -/
structure Tokens where
  list : List Token
  stop : Option Stop

end CodeMigration.Source
