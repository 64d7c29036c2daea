import CodeMigration.Regex.Syntax
import CodeMigration.Text.Integer

/-! # Reading regular expressions -/

namespace CodeMigration.Regex

/-- The least and greatest width of what a pattern matches, up to a bound that stands for none. -/
structure Width where
  least : Nat
  most : Nat

def maxWidth : Nat := 18446744073709551616

/-- A number of repetitions that may not be written. -/
def maxRepeat : Nat := 4294967295

/-- What is known while a pattern is read: the tokens ahead, the flags of the whole pattern, and the
groups so far. The width of a group is known once it is closed. -/
structure State where
  pattern : List Char
  rest : List Char
  next : Option (List Char)
  index : Nat
  flags : Flags
  widths : List (Option Width)
  names : List (String × Nat)
  lookbehind : Option Nat
  references : List (Nat × Nat)

abbrev Read (α : Type) : Type := StateT State (Except Fault) α

def State.tell (s : State) : Nat := s.index - (s.next.getD []).length

def raiseAt {α : Type} (cause : Cause) (position : Option Nat) : Read α := fun _ => .error ⟨cause, position⟩

/-- Blames the place some characters before the next token. -/
def raise {α : Type} (cause : Cause) (back : Nat) : Read α := do
  let s ← get
  raiseAt cause (some (s.tell - back))

/-- Goes to the token at a place; a backslash takes the character behind it along. -/
def load (rest : List Char) (index : Nat) : Read Unit := do
  let s ← get
  match rest with
  | [] => set { s with rest := [], next := none, index }
  | ['\\'] => raiseAt .escapeAtEnd (some (s.pattern.length - 1))
  | '\\' :: c :: more => set { s with rest := more, next := some ['\\', c], index := index + 2 }
  | c :: more => set { s with rest := more, next := some [c], index := index + 1 }

def peekToken : Read (Option (List Char)) := do return (← get).next

def takeToken : Read (Option (List Char)) := do
  let s ← get
  load s.rest s.index
  pure s.next

def seek (index : Nat) : Read Unit := do load ((← get).pattern.drop index) index

def tryToken (c : Char) : Read Bool := do
  if (← peekToken) == some [c] then
    let _ ← takeToken
    pure true
  else pure false

def takeWhileUpTo (test : Char → Bool) : Nat → Read (List Char)
  | 0 => pure []
  | n + 1 => do
    match ← peekToken with
    | some [c] =>
      if test c then
        let _ ← takeToken
        pure (c :: (← takeWhileUpTo test n))
      else pure []
    | _ => pure []

def takeUntil (terminator : Char) (what : String) : Nat → List Char → Read (List Char)
  | 0, read => pure read
  | fuel + 1, read => do
    match ← takeToken with
    | none =>
      if read.isEmpty then raise (.missing what) 0 else raise (.unterminatedName terminator) read.length
    | some token =>
      if token == [terminator] then
        if read.isEmpty then raise (.missing what) 1 else pure read
      else takeUntil terminator what fuel (read ++ token)

def untilToken (terminator : Char) (what : String) : Read (List Char) := do
  takeUntil terminator what ((← get).pattern.length + 2) []

def isIdentifier : List Char → Bool
  | [] => false
  | c :: rest => Text.isIdentStart c.toNat && rest.all fun c => Text.isIdentContinue c.toNat

def checkGroupName (name : List Char) : Read Unit := do
  if isIdentifier name then pure ()
  else raise (.badGroupName (String.ofList name)) (name.length + 1)

def groupCount : Read Nat := do return (← get).widths.length

def isClosed (group : Nat) : Read Bool := do return ((← get).widths[group]?.getD none).isSome

def checkLookbehind (group : Nat) : Read Unit := do
  match (← get).lookbehind with
  | none => pure ()
  | some bound =>
    if !(← isClosed group) then raise .openGroup 0
    else if bound ≤ group then raise .lookbehindGroup 0

def openGroup (name : Option (List Char)) : Read Nat := do
  let group ← groupCount
  modify fun s => { s with widths := s.widths ++ [none] }
  match name with
  | none => pure ()
  | some name =>
    let text := String.ofList name
    match (← get).names.lookup text with
    | some before => raise (.redefinition text group before) (name.length + 1)
    | none => modify fun s => { s with names := (text, group) :: s.names }
  pure group

mutual

def Node.width (widths : List (Option Width)) : Node → Width
  | .point _ | .notPoint _ | .any | .set .. => ⟨1, 1⟩
  | .anchor _ | .look .. => ⟨0, 0⟩
  | .branch choices => branchWidth widths choices
  | .group _ _ _ body => nodesWidth widths body
  | .times _ least most body =>
    let w := nodesWidth widths body
    ⟨w.least * least, match most with
      | none => if w.most == 0 then 0 else maxWidth
      | some n => w.most * n⟩
  | .reference group => (widths[group]?.getD none).getD ⟨0, 0⟩
  | .condition _ yes no =>
    let y := nodesWidth widths yes
    match no with
    | none => ⟨0, y.most⟩
    | some no =>
      let n := nodesWidth widths no
      ⟨min y.least n.least, max y.most n.most⟩
  | .atomic body => nodesWidth widths body

def nodesWidth (widths : List (Option Width)) : List Node → Width
  | [] => ⟨0, 0⟩
  | n :: rest =>
    let a := n.width widths
    let b := nodesWidth widths rest
    ⟨min (a.least + b.least) maxWidth, min (a.most + b.most) maxWidth⟩

def branchWidth (widths : List (Option Width)) : List (List Node) → Width
  | [] => ⟨maxWidth, 0⟩
  | c :: rest =>
    let a := nodesWidth widths c
    let b := branchWidth widths rest
    ⟨min a.least b.least, max a.most b.most⟩

end

def isHex (c : Char) : Bool := c.isDigit || ('a' ≤ c && c ≤ 'f') || ('A' ≤ c && c ≤ 'F')

def isOctal (c : Char) : Bool := '0' ≤ c && c ≤ '7'

def digitIn (c : Char) : Nat :=
  if c.isDigit then c.toNat - 48 else if 'a' ≤ c then c.toNat - 87 else c.toNat - 55

def numberIn (base : Nat) (cs : List Char) : Nat := cs.foldl (fun n c => n * base + digitIn c) 0

/-- The characters that an escape by one letter stands for. -/
def controlEscape? : Char → Option Nat
  | 'a' => some 7
  | 'b' => some 8
  | 'f' => some 12
  | 'n' => some 10
  | 'r' => some 13
  | 't' => some 9
  | 'v' => some 11
  | '\\' => some 92
  | _ => none

def categoryEscape? : Char → Option SetItem
  | 'd' => some (.category .digit false)
  | 'D' => some (.category .digit true)
  | 's' => some (.category .space false)
  | 'S' => some (.category .space true)
  | 'w' => some (.category .word false)
  | 'W' => some (.category .word true)
  | _ => none

def anchorEscape? : Char → Option Anchor
  | 'A' => some .startOfText
  | 'b' => some .boundary
  | 'B' => some .noBoundary
  | 'Z' => some .endOfText
  | _ => none

/-- A number of hexadecimal digits behind the letter of an escape. -/
def hexEscape (c : Char) (count : Nat) : Read Nat := do
  let ds ← takeWhileUpTo isHex count
  if ds.length != count then
    raise (.incompleteEscape (String.ofList ('\\' :: c :: ds))) (ds.length + 2)
  else
    let n := numberIn 16 ds
    if 0x110000 ≤ n then raise (.badEscape (String.ofList ('\\' :: c :: ds))) (ds.length + 2) else pure n

def namedEscape : Read Nat := do
  if ← tryToken '{' then
    let name ← untilToken '}' "character name"
    raise (.undefinedCharacter (String.ofList name)) (name.length + 4)
  else raise .missingBrace 0

/-- The escapes that are read alike everywhere: a number in hexadecimal, or a name. -/
def numberEscape? (c : Char) : Option (Read Nat) :=
  match c with
  | 'x' => some (hexEscape 'x' 2)
  | 'u' => some (hexEscape 'u' 4)
  | 'U' => some (hexEscape 'U' 8)
  | 'N' => some namedEscape
  | _ => none

def setEscape (c : Char) : Read SetItem := do
  match controlEscape? c, categoryEscape? c, numberEscape? c with
  | some n, _, _ => pure (.point n)
  | none, some item, _ => pure item
  | none, none, some escape => do return .point (← escape)
  | none, none, none =>
    if isOctal c then
      let ds ← takeWhileUpTo isOctal 2
      let n := numberIn 8 (c :: ds)
      if 0o377 < n then raise (.octalTooLarge (String.ofList ('\\' :: c :: ds))) (ds.length + 2)
      else pure (.point n)
    else if c.isDigit || c.isAlpha then raise (.badEscape (String.ofList ['\\', c])) 2
    else pure (.point c.toNat)

/-- A reference to a group, or three octal digits. -/
def digitEscape (c : Char) : Read Node := do
  let second ← takeWhileUpTo Char.isDigit 1
  let third ← match second with
    | [d] => if isOctal c && isOctal d then takeWhileUpTo isOctal 1 else pure []
    | _ => pure []
  let ds := c :: second ++ third
  if third.isEmpty then
    let group := numberIn 10 ds
    if group < (← groupCount) then
      if !(← isClosed group) then raise .openGroup (ds.length + 1)
      else
        checkLookbehind group
        pure (.reference group)
    else raise (.invalidReference group) ds.length
  else
    let n := numberIn 8 ds
    if 0o377 < n then raise (.octalTooLarge (String.ofList ('\\' :: ds))) (ds.length + 1)
    else pure (.point n)

def escape (c : Char) : Read Node := do
  match anchorEscape? c, categoryEscape? c, controlEscape? c, numberEscape? c with
  | some a, _, _, _ => pure (.anchor a)
  | none, some item, _, _ => pure (.set false [item])
  | none, none, some n, _ => pure (.point n)
  | none, none, none, some escape => do return .point (← escape)
  | none, none, none, none =>
    if c == '0' then
      let ds ← takeWhileUpTo isOctal 2
      pure (.point (numberIn 8 ds))
    else if c.isDigit then digitEscape c
    else if c.isAlpha then raise (.badEscape (String.ofList ['\\', c])) 2
    else pure (.point c.toNat)

def setMember (token : List Char) : Read SetItem :=
  match token with
  | ['\\', c] => setEscape c
  | [c] => pure (.point c.toNat)
  | _ => raise .unterminatedSet 0

def setItems (here : Nat) : Nat → List SetItem → Read (List SetItem)
  | 0, items => pure items
  | fuel + 1, items => do
    match ← takeToken with
    | none => raiseAt .unterminatedSet (some here)
    | some token =>
      if token == [']'] && !items.isEmpty then pure items
      else
        let first ← setMember token
        if ← tryToken '-' then
          match ← takeToken with
          | none => raiseAt .unterminatedSet (some here)
          | some [']'] => pure (items ++ [first, .point 45])
          | some that =>
            let second ← setMember that
            let bad : Cause := .badRange (String.ofList token) (String.ofList that)
            match first, second with
            | .point lo, .point hi =>
              if hi < lo then raise bad (token.length + 1 + that.length)
              else setItems here fuel (items ++ [.range lo hi])
            | _, _ => raise bad (token.length + 1 + that.length)
        else setItems here fuel (items ++ [first])

def charSet : Read Node := do
  let here := (← get).tell - 1
  let negated ← tryToken '^'
  let items ← setItems here ((← get).pattern.length + 2) []
  match items.eraseDups, negated with
  | [.point n], true => pure (.notPoint n)
  | [.point n], false => pure (.point n)
  | items, negated => pure (.set negated items)

def isGlobal (f : Flags) : Bool := f.template

def flagOf (token : List Char) : Option (Option Flags) :=
  match token with
  | ['L'] => some none
  | [c] => (Flags.ofLetter? c).map some
  | _ => none

def isLetter (token : List Char) : Bool :=
  match token with
  | [c] => c.isAlpha || (128 ≤ c.toNat && Text.isIdentStart c.toNat)
  | _ => false

def isOneOf (cs : List Char) (token : List Char) : Bool :=
  match token with
  | [c] => cs.contains c
  | _ => false

def flagsOn : Nat → List Char → Flags → Read (Flags × List Char)
  | 0, token, add => pure (add, token)
  | fuel + 1, token, add => do
    match flagOf token with
    | none => pure (add, token)
    | some none => raise .localeFlag 0
    | some (some flag) =>
      let add := add.union flag
      if flag.isTyped && add.ascii && add.unicode then raise .incompatibleFlags 0
      else
        match ← takeToken with
        | none => raise (.missing "-, : or )") 0
        | some token =>
          if isOneOf [')', '-', ':'] token then pure (add, token)
          else if (flagOf token).isNone then
            raise (if isLetter token then .unknownFlag else .missing "-, : or )") token.length
          else flagsOn fuel token add

def flagsOff : Nat → List Char → Flags → Read Flags
  | 0, _, del => pure del
  | fuel + 1, token, del => do
    match flagOf token with
    | none | some none => raise .turnOffTyped 0
    | some (some flag) =>
      if flag.isTyped then raise .turnOffTyped 0
      else
        let del := del.union flag
        match ← takeToken with
        | none => raise (.missing ":") 0
        | some token =>
          if token == [':'] then pure del
          else if (flagOf token).isNone then
            raise (if isLetter token then .unknownFlag else .missing ":") token.length
          else flagsOff fuel token del

/-- Flags in a group: `none` if they are for the whole pattern. -/
def readFlags (token : List Char) : Read (Option (Flags × Flags)) := do
  let fuel := (← get).pattern.length + 2
  let (add, token) ← if token == ['-'] then pure ({}, token) else flagsOn fuel token {}
  if token == [')'] then
    modify fun s => { s with flags := s.flags.union add }
    pure none
  else if isGlobal add then raise .turnOnGlobal 1
  else
    let del ← if token == ['-'] then do
      match ← takeToken with
      | none => raise (.missing "flag") 0
      | some token =>
        if (flagOf token).isNone then
          raise (if isLetter token then .unknownFlag else .missing "flag") token.length
        else flagsOff fuel token {}
      else pure {}
    if isGlobal del then raise .turnOffGlobal 1
    else if !(add.inter del).isEmpty then raise .onAndOff 1
    else pure (some (add, del))

def bounds : Read (Option (List Char × List Char)) := do
  let fuel := (← get).pattern.length
  if (← peekToken) == some ['}'] then pure none
  else
    let lo ← takeWhileUpTo Char.isDigit fuel
    let hi ← if ← tryToken ',' then takeWhileUpTo Char.isDigit fuel else pure lo
    if ← tryToken '}' then pure (some (lo, hi)) else pure none

def boundValue (ds : List Char) : Read (Option Nat) := do
  if ds.isEmpty then pure none
  else if Text.maxReadDigits < ds.length then raiseAt (.tooManyDigits ds.length) none
  else
    let n := numberIn 10 ds
    if maxRepeat ≤ n then raiseAt .repeatTooLarge none else pure (some n)

def repeatable (here : Nat) (token : List Char) (items : List Node) : Read Node := do
  let back := (← get).tell - here + token.length
  match items.getLast? with
  | none | some (.anchor _) => raise .nothingToRepeat back
  | some (.times ..) => raise .multipleRepeat back
  | some item => pure item

def repetition (here : Nat) (token : List Char) (least : Nat) (most : Option Nat) (items : List Node) :
    Read (List Node) := do
  let item ← repeatable here token items
  let kind ← if ← tryToken '?' then pure RepeatKind.reluctant
    else if ← tryToken '+' then pure RepeatKind.possessive
    else pure RepeatKind.greedy
  pure (items.dropLast ++ [.times kind least most [item]])

def braces (items : List Node) : Read (List Node) := do
  let here := (← get).tell
  match ← bounds with
  | none =>
    seek here
    pure (items ++ [.point 123])
  | some (lo, hi) =>
    let least := (← boundValue lo).getD 0
    let most ← boundValue hi
    if most.any (· < least) then raiseAt .repeatOrder (some here)
    else repetition here ['{'] least most items

inductive Opening where
  /-- A group that captures, or one with flags. -/
  | plain (capture : Bool) (name : Option (List Char)) (add del : Flags)
  | atomic
  | look (ahead negated : Bool)
  | condition (group : Nat)
  /-- All of it was read; there may be a node. -/
  | done (node : Option Node)

def skipComment (start : Nat) : Nat → Read Unit
  | 0 => pure ()
  | fuel + 1 => do
    match ← peekToken with
    | none => raiseAt .unterminatedComment (some start)
    | some _ => if (← takeToken) == some [')'] then pure () else skipComment start fuel

def namedReference : Read Node := do
  let name ← untilToken ')' "group name"
  checkGroupName name
  match (← get).names.lookup (String.ofList name) with
  | none => raise (.unknownName (String.ofList name)) (name.length + 1)
  | some group =>
    if !(← isClosed group) then raise .openGroup (name.length + 1)
    else
      checkLookbehind group
      pure (.reference group)

def maxGroups : Nat := 1073741823

def conditionGroup : Read Nat := do
  let name ← untilToken ')' "group name"
  let back := name.length + 1
  let text := String.ofList name
  let group ← if isIdentifier name then
      match (← get).names.lookup text with
      | none => raise (.unknownName text) back
      | some group => pure group
    else
      match Text.readInt name with
      | .error _ => raise (.badGroupName text) back
      | .ok n =>
        if n < 0 then raise (.badGroupName text) back
        else
          let group := n.toNat
          if group == 0 then raise .badGroupNumber back
          else if maxGroups ≤ group then raise (.invalidReference group) back
          else
            let place := (← get).tell - back
            if ((← get).references.lookup group).isNone then
              modify fun s => { s with references := s.references ++ [(group, place)] }
            pure group
  checkLookbehind group
  pure group

/-- The opening of a group, behind its bracket. `first` tells that nothing stands before it. -/
def opening (start : Nat) (first : Bool) : Read Opening := do
  if !(← tryToken '?') then pure (.plain true none {} {})
  else
    match ← takeToken with
    | none => raise .unexpectedEnd 0
    | some token =>
      match token with
      | ['P'] =>
        if ← tryToken '<' then
          let name ← untilToken '>' "group name"
          checkGroupName name
          pure (.plain true (some name) {} {})
        else if ← tryToken '=' then do return .done (some (← namedReference))
        else
          match ← takeToken with
          | none => raise .unexpectedEnd 0
          | some c => raise (.unknownExtension ("P" ++ String.ofList c)) (c.length + 2)
      | [':'] => pure (.plain false none {} {})
      | ['#'] =>
        skipComment start ((← get).pattern.length + 2)
        pure (.done none)
      | ['='] => pure (.look true false)
      | ['!'] => pure (.look true true)
      | ['<'] =>
        match ← takeToken with
        | none => raise .unexpectedEnd 0
        | some ['='] => pure (.look false false)
        | some ['!'] => pure (.look false true)
        | some c => raise (.unknownExtension ("<" ++ String.ofList c)) (c.length + 2)
      | ['('] => do return .condition (← conditionGroup)
      | ['>'] => pure .atomic
      | token =>
        if (flagOf token).isSome || token == ['-'] then
          match ← readFlags token with
          | some (add, del) => pure (.plain false none add del)
          | none => if first then pure (.done none) else raiseAt .globalFlags (some start)
        else raise (.unknownExtension (String.ofList token)) (token.length + 1)

def closing (start : Nat) : Read Unit := do
  if ← tryToken ')' then pure () else raiseAt .unterminatedGroup (some start)

/-- Characters that do not count in a verbose pattern. -/
def layout : List Char := [' ', '\t', '\n', '\r', '\x0b', '\x0c']

def skipLine : Nat → Read Unit
  | 0 => pure ()
  | fuel + 1 => do
    match ← takeToken with
    | none | some ['\n'] => pure ()
    | some _ => skipLine fuel

mutual

/-- Alternatives, up to the end of their group. `top` tells those of the whole pattern. -/
def alternatives (verbose top : Bool) : Nat → List (List Node) → Read (List Node)
  | 0, _ => pure []
  | fuel + 1, before => do
    let items ← sequence verbose (top && before.isEmpty) fuel []
    let choices := before ++ [items]
    if ← tryToken '|' then
      let s ← get
      alternatives (if top then s.flags.verbose else verbose) top fuel choices
    else
      match choices with
      | [items] => pure items
      | choices => pure [.branch choices]

/-- Items one after the other. `first` tells that nothing of the whole pattern was read before. -/
def sequence (verbose first : Bool) : Nat → List Node → Read (List Node)
  | 0, items => pure items
  | fuel + 1, items => do
    match ← peekToken with
    | none | some ['|'] | some [')'] => pure items
    | some token =>
      let _ ← takeToken
      if verbose && isOneOf layout token then sequence verbose first fuel items
      else if verbose && token == ['#'] then
        skipLine ((← get).pattern.length + 2)
        sequence verbose first fuel items
      else
        let here := (← get).tell
        match token with
        | ['\\', c] => sequence verbose first fuel (items ++ [← escape c])
        | ['['] => sequence verbose first fuel (items ++ [← charSet])
        | ['?'] => sequence verbose first fuel (← repetition here token 0 (some 1) items)
        | ['*'] => sequence verbose first fuel (← repetition here token 0 none items)
        | ['+'] => sequence verbose first fuel (← repetition here token 1 none items)
        | ['{'] => sequence verbose first fuel (← braces items)
        | ['.'] => sequence verbose first fuel (items ++ [.any])
        | ['^'] => sequence verbose first fuel (items ++ [.anchor .start])
        | ['$'] => sequence verbose first fuel (items ++ [.anchor .finish])
        | ['('] =>
          let start := here - 1
          match ← opening start (first && items.isEmpty) with
          | .done node =>
            -- flags for the whole pattern count from here on
            let s ← get
            sequence (verbose || (first && items.isEmpty && s.flags.verbose)) first fuel (items ++ node.toList)
          | .plain capture name add del =>
            let group ← if capture then some <$> openGroup name else pure none
            let body ← alternatives ((verbose || add.verbose) && !del.verbose) false fuel []
            closing start
            match group with
            | none => pure ()
            | some g =>
              modify fun s => { s with widths := s.widths.set g (some (nodesWidth s.widths body)) }
            sequence verbose first fuel (items ++ [.group group add del body])
          | .atomic =>
            let body ← alternatives verbose false fuel []
            closing start
            sequence verbose first fuel (items ++ [.atomic body])
          | .look ahead negated =>
            let outer := (← get).lookbehind
            if !ahead && outer.isNone then
              modify fun s => { s with lookbehind := some s.widths.length }
            let body ← alternatives verbose false fuel []
            if !ahead && outer.isNone then modify fun s => { s with lookbehind := none }
            closing start
            sequence verbose first fuel (items ++ [.look ahead negated body])
          | .condition group =>
            let yes ← sequence verbose false fuel []
            let no ← if ← tryToken '|' then do
                let no ← sequence verbose false fuel []
                if (← peekToken) == some ['|'] then raise .twoBranches 0
                pure (some no)
              else pure none
            closing start
            sequence verbose first fuel (items ++ [.condition group yes no])
        | [c] => sequence verbose first fuel (items ++ [.point c.toNat])
        | _ => sequence verbose first fuel items

end

def maxLookbehind : Nat := 4294967295

mutual

/-- The first part that cannot be matched. -/
def Node.check (widths : List (Option Width)) (flags : Flags) : Node → Option Cause
  | .branch choices => checkChoices widths flags choices
  | .group _ add del body => checkNodes widths (flags.combine add del) body
  | .times kind _ _ body =>
    if flags.template then some (.templateRepeat kind) else checkNodes widths flags body
  | .look ahead _ body =>
    let w := nodesWidth widths body
    if !ahead && maxLookbehind < w.least then some .farLookbehind
    else if !ahead && w.least != w.most then some .variableLookbehind
    else checkNodes widths flags body
  | .condition _ yes no => (checkNodes widths flags yes).or (checkOpt widths flags no)
  | .atomic body => checkNodes widths flags body
  | _ => none

def checkNodes (widths : List (Option Width)) (flags : Flags) : List Node → Option Cause
  | [] => none
  | n :: rest => (n.check widths flags).or (checkNodes widths flags rest)

def checkOpt (widths : List (Option Width)) (flags : Flags) : Option (List Node) → Option Cause
  | none => none
  | some ns => checkNodes widths flags ns

def checkChoices (widths : List (Option Width)) (flags : Flags) : List (List Node) → Option Cause
  | [] => none
  | c :: rest => (checkNodes widths flags c).or (checkChoices widths flags rest)

end

structure Compiled where
  nodes : List Node
  flags : Flags
  widths : List (Option Width)

def readPattern : Read Compiled := do
  let start ← get
  load start.pattern 0
  let fuel := 4 * start.pattern.length + 8
  let nodes ← alternatives false true fuel []
  let s ← get
  if s.flags.ascii && s.flags.unicode then raiseAt .bothAlphabets none
  else if s.next.isSome then raise .unbalanced 0
  else
    match s.references.find? fun (group, _) => s.widths.length ≤ group with
    | some (group, place) => raiseAt (.invalidReference group) (some place)
    | none =>
      let flags := if s.flags.ascii then s.flags else { s.flags with unicode := true }
      match checkNodes s.widths flags nodes with
      | some cause => raiseAt cause none
      | none => pure ⟨nodes, flags, s.widths⟩

def compile (pattern : String) : Except Fault Compiled :=
  let cs := pattern.toList
  let start : State := ⟨cs, [], none, 0, {}, [none], [], none, []⟩
  match readPattern start with
  | .ok (compiled, _) => .ok compiled
  | .error fault => .error fault

end CodeMigration.Regex
