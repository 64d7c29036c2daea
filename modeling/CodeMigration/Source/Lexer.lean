import CodeMigration.Source.Token

/-! # From text to tokens

Lines end at `\n`; indentation is measured twice, with tabs of width eight and of width one, and
both measures have to agree on what is deeper. Inside brackets lines and indentation do not count. -/

namespace CodeMigration.Source

/-- Every line end becomes `\n`, and the last line gets one if it has none. -/
def unifyNewlines : List Char → List Char
  | [] => ['\n']
  | ['\n'] => ['\n']
  | ['\r'] => ['\n']
  | ['\r', '\n'] => ['\n']
  | '\r' :: '\n' :: rest => '\n' :: unifyNewlines rest
  | '\r' :: rest => '\n' :: unifyNewlines rest
  | c :: rest => c :: unifyNewlines rest

/-- What is left of a text, and the place of its first character. -/
structure Reader where
  rest : List Char
  line : Nat
  col : Nat

namespace Reader

/-- Past one character. The line number does not move at the end of the text. -/
def next (r : Reader) : Reader :=
  match r.rest with
  | [] => r
  | c :: rest =>
    if c == '\n' && !rest.isEmpty then ⟨rest, r.line + 1, 0⟩
    else ⟨rest, r.line, r.col + c.utf8Size⟩

def skip : Nat → Reader → Reader
  | 0, r => r
  | n + 1, r => skip n r.next

end Reader

/-- Characters that may stand in a name as far as the lexer looks at first: all beyond ASCII do. -/
def isNameStart (c : Char) : Bool := c.isAlpha || c == '_' || 128 ≤ c.toNat

def isNameChar (c : Char) : Bool := isNameStart c || c.isDigit

/-- The first character of a name that identifiers do not admit. -/
def badNameChar? : List Char → Option Char
  | [] => none
  | c :: rest =>
    if !Text.isIdentStart c.toNat then some c
    else rest.find? (fun c => !Text.isIdentContinue c.toNat)

-- Numbers: each function takes what follows and gives what is left.
namespace NumberText

def isWordHere (word : List Char) (cs : List Char) : Bool :=
  match word, cs with
  | [], c :: _ => !isNameChar c
  | [], [] => true
  | w :: word, c :: cs => w == c && isWordHere word cs
  | _ :: _, [] => false

/-- A number may run into a following reserved word, but into no other name. -/
def endsHere (cs : List Char) : Bool :=
  match cs with
  | [] => true
  | 'a' :: rest => isWordHere ['n', 'd'] rest
  | 'e' :: rest => isWordHere ['l', 's', 'e'] rest
  | 'f' :: rest => isWordHere ['o', 'r'] rest
  | 'i' :: c :: _ => c == 'f' || c == 'n' || c == 's'
  | 'o' :: rest => isWordHere ['r'] rest
  | 'n' :: rest => isWordHere ['o', 't'] rest
  | c :: _ => !isNameChar c

def verify (kind : NumberKind) (cs : List Char) : Except Cause (List Char) :=
  if endsHere cs then .ok cs else .error (.invalidNumber kind)

/-- Digits after the first, in groups divided by single underscores. -/
def decimalTail : List Char → Except Cause (List Char)
  | '_' :: c :: rest => if c.isDigit then decimalTail rest else .error (.invalidNumber .decimal)
  | ['_'] => .error (.invalidNumber .decimal)
  | c :: rest => if c.isDigit then decimalTail rest else .ok (c :: rest)
  | [] => .ok []

def suffix : List Char → Except Cause (List Char)
  | 'j' :: rest | 'J' :: rest => verify .imaginary rest
  | cs => verify .decimal cs

def exponent (mark : Char) (cs : List Char) : Except Cause (List Char) :=
  let signed (rest : List Char) : Except Cause (List Char) :=
    match rest with
    | d :: rest => if d.isDigit then do suffix (← decimalTail rest) else .error (.invalidNumber .decimal)
    | [] => .error (.invalidNumber .decimal)
  match cs with
  | '+' :: rest | '-' :: rest => signed rest
  | d :: rest =>
    if d.isDigit then do suffix (← decimalTail rest)
    else verify .decimal (mark :: cs)
  | [] => verify .decimal (mark :: cs)

/-- After the whole part: a fraction was read or is not there. -/
def afterFraction : List Char → Except Cause (List Char)
  | 'e' :: rest => exponent 'e' rest
  | 'E' :: rest => exponent 'E' rest
  | cs => suffix cs

def fraction : List Char → Except Cause (List Char)
  | d :: rest => if d.isDigit then do afterFraction (← decimalTail rest) else afterFraction (d :: rest)
  | [] => afterFraction []

def afterWhole : List Char → Except Cause (List Char)
  | '.' :: rest => fraction rest
  | cs => afterFraction cs

/-- Digits of a base in groups divided by single underscores; each group has at least one. `first`
tells whether a group has to start here. -/
def based (kind : NumberKind) (isDigitOf : Char → Bool) : Bool → List Char → Except Cause (List Char)
  | true, '_' :: c :: rest => group c rest
  | true, c :: rest => group c rest
  | true, [] => .error (.invalidNumber kind)
  | false, '_' :: c :: rest => group c rest
  | false, ['_'] => .error (.invalidNumber kind)
  | false, c :: rest =>
    if isDigitOf c then based kind isDigitOf false rest
    else if kind != .hexadecimal && c.isDigit then .error (.invalidDigit c kind)
    else verify kind (c :: rest)
  | false, [] => .ok []
where
  /-- A group starts with `c`. -/
  group (c : Char) (rest : List Char) : Except Cause (List Char) :=
    if isDigitOf c then based kind isDigitOf false rest
    else if kind != .hexadecimal && c.isDigit then .error (.invalidDigit c kind)
    else .error (.invalidNumber kind)

def isHexDigit (c : Char) : Bool :=
  c.isDigit || ('a' ≤ c && c ≤ 'f') || ('A' ≤ c && c ≤ 'F')

def isOctalDigit (c : Char) : Bool := '0' ≤ c && c ≤ '7'

def isBinaryDigit (c : Char) : Bool := c == '0' || c == '1'

/-- After a zero that is no base: more zeros, or digits that only a float or an imaginary may have. -/
def afterZero : List Char → Except Cause (List Char)
  | '_' :: c :: rest =>
    if c == '0' then afterZero rest
    else if c.isDigit then nonzero rest
    else .error (.invalidNumber .decimal)
  | ['_'] => .error (.invalidNumber .decimal)
  | '0' :: rest => afterZero rest
  | c :: rest => if c.isDigit then nonzero rest else afterZeros (c :: rest)
  | [] => .ok []
where
  /-- Digits that start with zeros. -/
  nonzero (rest : List Char) : Except Cause (List Char) := do
    let left ← decimalTail rest
    match left with
    | '.' :: rest => fraction rest
    | 'e' :: rest => exponent 'e' rest
    | 'E' :: rest => exponent 'E' rest
    | 'j' :: rest | 'J' :: rest => verify .imaginary rest
    | _ => .error .leadingZeros
  /-- Nothing but zeros. -/
  afterZeros : List Char → Except Cause (List Char)
    | '.' :: rest => fraction rest
    | 'e' :: rest => exponent 'e' rest
    | 'E' :: rest => exponent 'E' rest
    | 'j' :: rest | 'J' :: rest => verify .imaginary rest
    | cs => verify .decimal cs

/-- What is left after the number that starts here with a digit, or with a point and a digit. -/
def scan : List Char → Except Cause (List Char)
  | '0' :: 'x' :: rest | '0' :: 'X' :: rest => based .hexadecimal isHexDigit true rest
  | '0' :: 'o' :: rest | '0' :: 'O' :: rest => based .octal isOctalDigit true rest
  | '0' :: 'b' :: rest | '0' :: 'B' :: rest => based .binary isBinaryDigit true rest
  | '0' :: rest => afterZero rest
  | '.' :: rest => fraction rest
  | _ :: rest => do afterWhole (← decimalTail rest)
  | [] => .ok []

end NumberText

namespace StringText

/-- The number of letters before the quote of a string literal that starts here: at most one of `b`,
`u`, `f`, with `r` beside `b` or `f` in either order. -/
def letters? (b u r f : Bool) : List Char → Option Nat
  | [] => none
  | '"' :: _ => some 0
  | '\'' :: _ => some 0
  | c :: rest =>
    let l := c.toLower
    if l == 'b' && !(b || u || f) then (letters? true u r f rest).map (· + 1)
    else if l == 'u' && !(b || u || r || f) then (letters? b true r f rest).map (· + 1)
    else if l == 'r' && !(r || u) then (letters? b u true f rest).map (· + 1)
    else if l == 'f' && !(f || b || u) then (letters? b u r true rest).map (· + 1)
    else none

/-- How many characters there are up to and with the end of a string after its opening quotes. `run`
counts the quotes just seen. Without an end, how many up to where that is noticed. -/
def scan (quote : Char) (triple : Bool) (run count : Nat) : List Char → Except Nat Nat
  | [] => .error count
  | '\\' :: _ :: rest => scan quote triple 0 (count + 2) rest
  | c :: rest =>
    if !triple && c == '\n' then .error count
    else if c == quote then
      if !triple || run == 2 then .ok (count + 1) else scan quote triple (run + 1) (count + 1) rest
    else scan quote triple 0 (count + 1) rest

end StringText

def symbolAt : List Char → Symbol × Nat
  | '.' :: '.' :: '.' :: _ => (.ellipsis, 3)
  | '*' :: '*' :: '=' :: _ => (.doubleStarEqual, 3)
  | '/' :: '/' :: '=' :: _ => (.doubleSlashEqual, 3)
  | '<' :: '<' :: '=' :: _ => (.leftShiftEqual, 3)
  | '>' :: '>' :: '=' :: _ => (.rightShiftEqual, 3)
  | '!' :: '=' :: _ => (.notEqual, 2)
  | '%' :: '=' :: _ => (.percentEqual, 2)
  | '&' :: '=' :: _ => (.amperEqual, 2)
  | '*' :: '*' :: _ => (.doubleStar, 2)
  | '*' :: '=' :: _ => (.starEqual, 2)
  | '+' :: '=' :: _ => (.plusEqual, 2)
  | '-' :: '=' :: _ => (.minusEqual, 2)
  | '-' :: '>' :: _ => (.arrow, 2)
  | '/' :: '/' :: _ => (.doubleSlash, 2)
  | '/' :: '=' :: _ => (.slashEqual, 2)
  | ':' :: '=' :: _ => (.walrus, 2)
  | '<' :: '<' :: _ => (.leftShift, 2)
  | '<' :: '=' :: _ => (.lessEqual, 2)
  | '<' :: '>' :: _ => (.diamond, 2)
  | '=' :: '=' :: _ => (.eqEqual, 2)
  | '>' :: '=' :: _ => (.greaterEqual, 2)
  | '>' :: '>' :: _ => (.rightShift, 2)
  | '@' :: '=' :: _ => (.atEqual, 2)
  | '^' :: '=' :: _ => (.circumflexEqual, 2)
  | '|' :: '=' :: _ => (.vbarEqual, 2)
  | '%' :: _ => (.percent, 1)
  | '&' :: _ => (.amper, 1)
  | '(' :: _ => (.lpar, 1)
  | ')' :: _ => (.rpar, 1)
  | '*' :: _ => (.star, 1)
  | '+' :: _ => (.plus, 1)
  | ',' :: _ => (.comma, 1)
  | '-' :: _ => (.minus, 1)
  | '.' :: _ => (.dot, 1)
  | '/' :: _ => (.slash, 1)
  | ':' :: _ => (.colon, 1)
  | ';' :: _ => (.semi, 1)
  | '<' :: _ => (.less, 1)
  | '=' :: _ => (.equal, 1)
  | '>' :: _ => (.greater, 1)
  | '@' :: _ => (.at, 1)
  | '[' :: _ => (.lsqb, 1)
  | ']' :: _ => (.rsqb, 1)
  | '^' :: _ => (.circumflex, 1)
  | '{' :: _ => (.lbrace, 1)
  | '|' :: _ => (.vbar, 1)
  | '}' :: _ => (.rbrace, 1)
  | '~' :: _ => (.tilde, 1)
  | _ => (.other, 1)

structure LexState where
  reader : Reader
  /-- Whether a line starts here, so that its indentation is to be measured. -/
  lineStart : Bool
  /-- The open indentations, the innermost first, in both measures. -/
  indents : List (Nat × Nat)
  /-- The open brackets with their lines, the innermost first. -/
  brackets : List (Char × Nat)
  /-- The tokens made so far, the last first. -/
  made : List Token

namespace LexState

def stopAt (s : LexState) (line : Nat) (reason : StopReason) : Stop :=
  ⟨reason, line, s.brackets.head?⟩

def stop (s : LexState) (reason : StopReason) : Stop := s.stopAt s.reader.line reason

def push (s : LexState) (kind : Kind) (count : Nat) : LexState :=
  let r := s.reader
  let r' := r.skip count
  let text := String.ofList (r.rest.take count)
  let token : Token := ⟨kind, text, ⟨r.line, r.col, r'.line, r'.col⟩, s.brackets.length, s.made.length⟩
  { s with reader := r', made := token :: s.made }

def pushLayout (s : LexState) (kind : Kind) : LexState := s.push kind 0

end LexState

def maxBrackets : Nat := 200

/-- One more than the most indentations that may be open. -/
def maxIndents : Nat := 100

/-- Blanks at the start of a line: both widths, the width before the first line continuation among
them if there is one, and the number of characters. -/
structure Indentation where
  wide : Nat
  narrow : Nat
  joined : Option Nat
  count : Nat

/-- Measures indentation. A line continuation has to be followed by a line; if not, the reason is
given with the number of characters before the place where that is noticed. -/
def measureIndent (i : Indentation) : List Char → Except (StopReason × Nat) Indentation
  | ' ' :: cs => measureIndent ⟨i.wide + 1, i.narrow + 1, i.joined, i.count + 1⟩ cs
  | '\t' :: cs => measureIndent ⟨(i.wide / 8 + 1) * 8, i.narrow + 1, i.joined, i.count + 1⟩ cs
  | '\x0c' :: cs => measureIndent ⟨0, 0, i.joined, i.count + 1⟩ cs
  | '\\' :: '\n' :: cs =>
    if cs.isEmpty then .error (.endOfText, i.count + 2)
    else
      let joined := match i.joined with
        | some (w + 1) => some (w + 1)
        | _ => some i.wide
      measureIndent ⟨i.wide, i.narrow, joined, i.count + 2⟩ cs
  | '\\' :: _ => .error (.afterContinuation, i.count + 1)
  | _ => .ok i

/-- Opens and closes indentations at the start of a line of the given widths. -/
def indentTo (s : LexState) (wide narrow : Nat) : Except Stop LexState :=
  let (w, n) := s.indents.headD (0, 0)
  if wide == w then
    if narrow == n then .ok s else .error (s.stop .mixedTabs)
  else if w < wide then
    if maxIndents ≤ s.indents.length + 1 then .error (s.stop .tooManyIndents)
    else if narrow ≤ n then .error (s.stop .mixedTabs)
    else .ok ({ s with indents := (wide, narrow) :: s.indents }.pushLayout .indent)
  else
    let kept := s.indents.dropWhile (fun i => wide < i.1)
    let (w, n) := kept.headD (0, 0)
    if wide != w then .error (s.stop .badUnindent)
    else if narrow != n then .error (s.stop .mixedTabs)
    else
      let closed := s.indents.length - kept.length
      .ok (Nat.repeat (fun s => s.pushLayout .dedent) closed { s with indents := kept })

def skipComment (r : Reader) : Reader :=
  if r.rest.head? == some '#' then r.skip (r.rest.takeWhile (· != '\n')).length else r

/-- At the start of a line: a line without code is passed over, else its indentation counts. -/
def lexLineStart (s : LexState) : Except Stop LexState :=
  match measureIndent ⟨0, 0, none, 0⟩ s.reader.rest with
  | .error (reason, count) => .error (s.stopAt (s.reader.skip count).line reason)
  | .ok i =>
    let reader := s.reader.skip i.count
    let s := { s with reader, lineStart := false }
    match reader.rest with
    | '#' :: _ | '\n' :: _ => .ok { s with reader := (skipComment reader).next, lineStart := true }
    | _ =>
      if s.brackets.isEmpty then
        match i.joined with
        | some (w + 1) => indentTo s (w + 1) (w + 1)
        | _ => indentTo s i.wide i.narrow
      else .ok s

def lexOpen (s : LexState) (symbol : Symbol) (c : Char) : Except Stop LexState :=
  if maxBrackets ≤ s.brackets.length then .error (s.stop (.fault .tooManyBrackets))
  else .ok ({ s with brackets := (c, s.reader.line) :: s.brackets }.push (.symbol symbol) 1)

def lexClose (s : LexState) (symbol : Symbol) (c opening : Char) : Except Stop LexState :=
  match s.brackets with
  | [] => .error (s.stop (.fault (.unmatched c)))
  | (o, line) :: rest =>
    if o == opening then .ok ({ s with brackets := rest }.push (.symbol symbol) 1)
    else
      let on := if line == s.reader.line then none else some line
      .error (s.stop (.fault (.mismatched c o on)))

def lexString (s : LexState) (letters : Nat) (atQuote : List Char) : Except Stop LexState :=
  match atQuote with
  | q :: q' :: q'' :: rest =>
    if q == q' && q == q'' then finish q true (letters + 3) rest
    else if q == q' then .ok (s.push .string (letters + 2))
    else finish q false (letters + 1) (q' :: q'' :: rest)
  | [q, q'] =>
    if q == q' then .ok (s.push .string (letters + 2)) else finish q false (letters + 1) [q']
  | q :: rest => finish q false (letters + 1) rest
  | [] => .ok s
where
  /-- After the opening quotes, which end after `opened` characters. -/
  finish (quote : Char) (triple : Bool) (opened : Nat) (rest : List Char) : Except Stop LexState :=
    match StringText.scan quote triple 0 0 rest with
    | .ok n => .ok (s.push .string (opened + n))
    | .error n =>
      let noticed := (s.reader.skip (opened + n)).line
      .error (s.stop (.fault (if triple then .unterminatedTriple noticed else .unterminatedString noticed)))

def lexName (s : LexState) : Except Stop LexState :=
  let chars := s.reader.rest.takeWhile isNameChar
  let checked := if chars.all (fun c => c.toNat < 128) then none else badNameChar? chars
  match checked with
  | some c => .error (s.stop (.fault (.invalidCharacter c.toNat)))
  | none =>
    let kind := match Word.ofString? (String.ofList chars) with
      | some w => .word w
      | none => .name
    .ok (s.push kind chars.length)

/-- One token, or a step over blanks, a comment or a line end. -/
def lexToken (s : LexState) : Except Stop LexState :=
  match s.reader.rest with
  | [] =>
    if s.brackets.isEmpty then .ok (s.pushLayout .finish) else .error (s.stop .endOfText)
  | c :: rest =>
    if c == ' ' || c == '\t' || c == '\x0c' then .ok { s with reader := s.reader.next }
    else if c == '#' then .ok { s with reader := skipComment s.reader }
    else if c == '\n' then
      if s.brackets.isEmpty then .ok { s.push .newline 1 with lineStart := true }
      else .ok { s with reader := s.reader.next, lineStart := true }
    else if c == '\\' then
      match rest with
      | '\n' :: after =>
        if after.isEmpty then .error (s.stop .endOfText)
        else .ok { s with reader := s.reader.skip 2 }
      | _ => .error (s.stop .afterContinuation)
    else if c == '"' || c == '\'' then lexString s 0 s.reader.rest
    else if isNameStart c then
      match StringText.letters? false false false false s.reader.rest with
      | some letters => lexString s letters (s.reader.rest.drop letters)
      | none => lexName s
    else if c.isDigit || (c == '.' && (rest.head?.any Char.isDigit)) then
      match NumberText.scan s.reader.rest with
      | .ok left => .ok (s.push .number (s.reader.rest.length - left.length))
      | .error cause => .error (s.stop (.fault cause))
    else
      match symbolAt s.reader.rest with
      | (.lpar, _) => lexOpen s .lpar c
      | (.lsqb, _) => lexOpen s .lsqb c
      | (.lbrace, _) => lexOpen s .lbrace c
      | (.rpar, _) => lexClose s .rpar c '('
      | (.rsqb, _) => lexClose s .rsqb c '['
      | (.rbrace, _) => lexClose s .rbrace c '{'
      | (.other, _) =>
        if Text.isPrintable c.toNat then .ok (s.push (.symbol .other) 1)
        else .error (s.stop (.fault (.invalidCharacter c.toNat)))
      | (symbol, n) => .ok (s.push (.symbol symbol) n)

def lexStep (s : LexState) : Except Stop LexState :=
  if s.lineStart then lexLineStart s else lexToken s

/-- Steps until the end marker is made or nothing more can be. -/
def lexLoop : Nat → LexState → Tokens
  | 0, s => ⟨s.made.reverse, none⟩
  | fuel + 1, s =>
    match lexStep s with
    | .error stop => ⟨s.made.reverse, some stop⟩
    | .ok s' =>
      if s'.reader.rest.isEmpty && (s'.made.head?.map Token.kind) == some .finish then ⟨s'.made.reverse, none⟩
      else lexLoop fuel s'

/-- The tokens of characters whose line ends are `\n`, from a line and column on. -/
def lexFrom (line col : Nat) (cs : List Char) : Tokens :=
  lexLoop (2 * cs.length + 4) ⟨⟨cs, line, col⟩, true, [], [], []⟩

def lex (s : String) : Tokens := lexFrom 1 0 (unifyNewlines s.toList)

end CodeMigration.Source
