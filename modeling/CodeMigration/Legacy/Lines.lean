import CodeMigration.Text.Basic

/-! # Replacing old uses in a text

Where a text is no module its lines are mended instead: print statements first, one block of lines at
a time, then handlers, functions and methods wherever they stand. -/

namespace CodeMigration.Legacy

open Text (isBlank isWordChar stripBoth stripRight)

inductive LineChange where
  | printBlock
  | printTo
  | printComma
  | print
  | handler (type name : String)
  | function (name successor : String)
  | method (name successor : String)
  | keyTest
  deriving DecidableEq

def LineChange.text : LineChange → String
  | printBlock => "print statement (multi-line) -> print()"
  | printTo => "print >> file -> print(..., file=)"
  | printComma => "print trailing comma -> print(..., end=' ')"
  | print => "print statement -> print()"
  | handler type name =>
    "except " ++ type ++ ", " ++ name ++ ": -> except " ++ type ++ " as " ++ name ++ ":"
  | function name new => name ++ "() -> " ++ new ++ "()"
  | method name new => "." ++ name ++ "() -> ." ++ new ++ "()"
  | keyTest => ".has_key(k) -> k in dict"

/-- What stands behind `print` and at least one blank, if that is something to print and no call: the
blanks belong to the keyword, all but the last where nothing else or a bracket follows. -/
def printed? (behind : List Char) : Option (List Char) :=
  let blanks := behind.takeWhile isBlank
  let rest := behind.dropWhile isBlank
  match blanks.getLast?, rest with
  | none, _ => none
  | some last, [] => if blanks.length ≤ 1 then none else some [last]
  | some last, '(' :: more => if blanks.length ≤ 1 then none else some (last :: '(' :: more)
  | some _, rest => some rest

def printStatement? (line : List Char) : Option (List Char × List Char) :=
  let indent := line.takeWhile isBlank
  match line.dropWhile isBlank with
  | 'p' :: 'r' :: 'i' :: 'n' :: 't' :: behind => (printed? behind).map fun operand => (indent, operand)
  | _ => none

def balance (cs : List Char) : Int := cs.count '(' - cs.count ')'

/-- The stream before a comma and the operand behind it: the longest run without blanks, or the
longest part of it before a comma, such that something stands behind the comma. `run` is the part
that is tried, in reverse, and `rest` what follows it, without blanks at its end. -/
def streamIn? : List Char → List Char → Option (List Char × List Char)
  | [], _ => none
  | c :: run, rest =>
    match rest.dropWhile isBlank with
    | ',' :: more =>
      match more.dropWhile isBlank with
      | [] => streamIn? run (c :: rest)
      | operand => some ((c :: run).reverse, operand)
    | _ => streamIn? run (c :: rest)

/-- The stream and the operand of a print statement that names its stream. -/
def redirect? (content : List Char) : Option (List Char × List Char) :=
  match content with
  | '>' :: '>' :: rest =>
    let rest := rest.dropWhile isBlank
    streamIn? (rest.takeWhile (!isBlank ·)).reverse (rest.dropWhile (!isBlank ·))
  | _ => none

def endsWithComma (cs : List Char) : Bool := (stripRight cs).getLast? == some ','

def dropComma (cs : List Char) : List Char := (stripRight cs).dropLast

def printCall (indent operand : List Char) (more : String) : String :=
  String.ofList indent ++ "print(" ++ String.ofList operand ++ more ++ ")"

def mendLine (line indent operand : List Char) : String × List LineChange :=
  let content := stripBoth operand
  match content with
  | '>' :: '>' :: _ =>
    match redirect? content with
    | some (stream, rest) => (printCall indent rest (", file=" ++ String.ofList stream), [.printTo])
    | none => (String.ofList line, [])
  | _ =>
    if endsWithComma operand then
      (printCall indent (stripBoth (dropComma operand)) ", end=' '", [.printComma])
    else (printCall indent operand "", [.print])

/-- A print statement whose brackets are still open at the end of its first line. -/
def mendBlock (indent operand : List Char) : String × List LineChange :=
  if endsWithComma operand then (printCall indent (dropComma operand) ", end=' '", [.printBlock])
  else (printCall indent operand "", [.printBlock])

structure Open where
  indent : List Char
  operand : List Char
  balance : Int

/-- Mends the print statements line by line. A statement goes on until its brackets are closed. -/
def mendPrints : Option Open → List (List Char) → List (String × List LineChange)
  | none, [] => []
  | some o, [] => [mendBlock o.indent o.operand]
  | some o, line :: rest =>
    let o : Open := ⟨o.indent, o.operand ++ '\n' :: line, o.balance + balance line⟩
    if 0 < o.balance then mendPrints (some o) rest
    else mendBlock o.indent o.operand :: mendPrints none rest
  | none, line :: rest =>
    match printStatement? line with
    | none => (String.ofList line, []) :: mendPrints none rest
    | some (indent, operand) =>
      if 0 < balance operand then mendPrints (some ⟨indent, operand, balance operand⟩) rest
      else mendLine line indent operand :: mendPrints none rest

/-- Replaces what `match?` finds, from the left and without overlap. It is told whether a word character
stands before, and gives the number of characters it takes, which is not zero, and the text in their
place; `skip` characters belong to what was found before. -/
def replaceMatches {α : Type} (match? : Bool → List Char → Option (Nat × List Char × α)) :
    Bool → Nat → List Char → List Char × List α
  | _, _, [] => ([], [])
  | _, skip + 1, c :: rest => replaceMatches match? (isWordChar c) skip rest
  | before, 0, c :: rest =>
    match match? before (c :: rest) with
    | some (taken, new, a) =>
      let (more, as) := replaceMatches match? (isWordChar c) (taken - 1) rest
      (new ++ more, a :: as)
    | none =>
      let (more, as) := replaceMatches match? (isWordChar c) 0 rest
      (c :: more, as)

def dropText? (part cs : List Char) : Option (List Char) :=
  if part.isPrefixOf cs then some (cs.drop part.length) else none

/-- `except type, name:` at the start. -/
def oldHandler? (_ : Bool) (cs : List Char) : Option (Nat × List Char × LineChange) := do
  let rest ← dropText? "except".toList cs
  let behind := rest.dropWhile isBlank
  if rest.length == behind.length then none
  let type := behind.takeWhile isWordChar
  if type.isEmpty then none
  match (behind.dropWhile isWordChar).dropWhile isBlank with
  | ',' :: rest =>
    let rest := rest.dropWhile isBlank
    let name := rest.takeWhile isWordChar
    if name.isEmpty then none
    match (rest.dropWhile isWordChar).dropWhile isBlank with
    | ':' :: rest =>
      some (cs.length - rest.length, "except ".toList ++ type ++ " as ".toList ++ name ++ [':'],
        .handler (String.ofList type) (String.ofList name))
    | _ => none
  | _ => none

/-- A call of a function at the start of a word. -/
def oldCall? (old new : String) (before : Bool) (cs : List Char) : Option (Nat × List Char × Unit) :=
  if before then none
  else do
    let rest ← dropText? old.toList cs
    match rest.dropWhile isBlank with
    | '(' :: rest => some (cs.length - rest.length, new.toList ++ ['('], ())
    | _ => none

/-- `name.has_key(key)` at the start. -/
def oldKeyTest? (_ : Bool) (cs : List Char) : Option (Nat × List Char × Unit) := do
  let name := cs.takeWhile isWordChar
  if name.isEmpty then none
  let rest ← dropText? ".has_key(".toList (cs.dropWhile isWordChar)
  let key := rest.takeWhile (· != ')')
  if key.isEmpty then none
  match rest.dropWhile (· != ')') with
  | ')' :: rest => some (cs.length - rest.length, key ++ " in ".toList ++ name, ())
  | _ => none

/-- A text with the changes made so far. -/
abbrev Mended : Type := List Char × List LineChange

def mendHandlers (m : Mended) : Mended :=
  let (text, found) := replaceMatches oldHandler? false 0 m.1
  (text, m.2 ++ found)

def mendFunction (old new : String) (m : Mended) : Mended :=
  match replaceMatches (oldCall? old new) false 0 m.1 with
  | (_, []) => m
  | (text, _) => (text, m.2 ++ [.function old new])

def mendMethod (old new : String) (m : Mended) : Mended :=
  let oldCall := ("." ++ old ++ "()").toList
  if Text.occurs oldCall m.1 then
    (Text.replaceFrom oldCall ("." ++ new ++ "()").toList 0 m.1, m.2 ++ [.method old new])
  else m

def mendKeyTests (m : Mended) : Mended :=
  if Text.occurs ".has_key(".toList m.1 then
    ((replaceMatches oldKeyTest? false 0 m.1).1, m.2 ++ [.keyTest])
  else m

def mendText (text : String) : String × List LineChange :=
  let mended := mendPrints none (Text.splitChars '\n' text.toList)
  let start : Mended := ((Text.unlines (mended.map Prod.fst)).toList, mended.flatMap Prod.snd)
  let (text, changes) :=
    mendKeyTests (mendMethod "itervalues" "values" (mendMethod "iterkeys" "keys" (mendMethod "iteritems" "items"
      (mendFunction "long" "int" (mendFunction "xrange" "range" (mendFunction "raw_input" "input"
        (mendFunction "unicode" "str" (mendHandlers start))))))))
  (String.ofList text, changes)

end CodeMigration.Legacy
