import CodeMigration.Regex.Reader
import CodeMigration.Text.Case

/-! # Matching regular expressions and replacing matches

Alternatives are tried in order and given up when what follows does not match. A repetition goes on
as long as it makes headway. -/

namespace CodeMigration.Regex

def lowerPoint (flags : Flags) (n : Nat) : Nat :=
  if flags.ascii then (if Text.isAsciiUpper n then n + 32 else n)
  else (Text.lowerPoint n).headD n

/-- Points in lower case that have the capital of another in common. -/
def sameCapital : List (List Nat) :=
  [[0x69, 0x131], [0x73, 0x17f], [0xb5, 0x3bc], [0x345, 0x3b9, 0x1fbe], [0x390, 0x1fd3], [0x3b0, 0x1fe3],
    [0x3b2, 0x3d0], [0x3b5, 0x3f5], [0x3b8, 0x3d1], [0x3ba, 0x3f0], [0x3c0, 0x3d6], [0x3c1, 0x3f1],
    [0x3c2, 0x3c3], [0x3c6, 0x3d5], [0x432, 0x1c80], [0x434, 0x1c81], [0x43e, 0x1c82], [0x441, 0x1c83],
    [0x442, 0x1c84, 0x1c85], [0x44a, 0x1c86], [0x463, 0x1c87], [0x1c88, 0xa64b], [0x1e61, 0x1e9b],
    [0xfb05, 0xfb06]]

/-- The points that count as a point when case does not matter, in lower case. -/
def variants (flags : Flags) (n : Nat) : List Nat :=
  let lower := lowerPoint flags n
  if flags.ascii then [lower] else (sameCapital.find? (·.contains lower)).getD [lower]

def samePoint (flags : Flags) (a b : Nat) : Bool :=
  if flags.ignoreCase then (variants flags a).contains (lowerPoint flags b) else a == b

def inCategory (flags : Flags) (n : Nat) : Category → Bool
  | .digit => if flags.ascii then Text.isAsciiDigit n else Text.isDecimal n
  | .space => if flags.ascii then n == 32 || (9 ≤ n && n ≤ 13) else Text.isSpace n
  | .word =>
    if flags.ascii then Text.isAsciiAlpha n || Text.isAsciiDigit n || n == 95 else Text.isWord n

def inRange (flags : Flags) (lo hi n : Nat) : Bool :=
  if flags.ignoreCase then
    let lower := lowerPoint flags n
    let within (m : Nat) : Bool := lo ≤ m && m ≤ hi
    (variants flags n).any within || within n ||
      (variants flags lower).any fun m => (Text.upperPoint m).any within
  else lo ≤ n && n ≤ hi

def SetItem.test (flags : Flags) (n : Nat) : SetItem → Bool
  | point m => samePoint flags m n
  | range lo hi => inRange flags lo hi n
  | category c negated => inCategory flags (if flags.ignoreCase then lowerPoint flags n else n) c != negated

/-- A place in the text: what stands before it, in reverse, what follows, how many characters are
before it, and the groups matched so far. -/
structure Place where
  before : List Nat
  after : List Nat
  position : Nat
  groups : List (Nat × Nat × List Nat)

def Place.step? (p : Place) : Option (Nat × Place) :=
  match p.after with
  | [] => none
  | n :: rest => some (n, { p with before := n :: p.before, after := rest, position := p.position + 1 })

def Place.back? (p : Place) : Nat → Option Place
  | 0 => some p
  | k + 1 =>
    match p.before with
    | [] => none
    | n :: rest => Place.back? { p with before := rest, after := n :: p.after, position := p.position - 1 } k

def Anchor.holds (flags : Flags) (p : Place) : Anchor → Bool
  | .start => p.before.isEmpty || (flags.multiline && p.before.head? == some 10)
  | .finish => p.after.isEmpty || p.after == [10] || (flags.multiline && p.after.head? == some 10)
  | .startOfText => p.before.isEmpty
  | .endOfText => p.after.isEmpty
  | .boundary => isBoundary && !isVoid
  | .noBoundary => !isBoundary && !isVoid
where
  isVoid : Bool := p.before.isEmpty && p.after.isEmpty
  isBoundary : Bool :=
    let word (n : Option Nat) : Bool := n.any (inCategory flags · .word)
    word p.before.head? != word p.after.head?

def Place.group? (p : Place) (g : Nat) : Option (List Nat) := (p.groups.lookup g).map Prod.snd

def Place.follow? (flags : Flags) (p : Place) : List Nat → Option Place
  | [] => some p
  | n :: rest =>
    match p.step? with
    | none => none
    | some (m, q) => if samePoint flags n m then Place.follow? flags q rest else none

/-- The test of a node that matches one character. -/
def Node.single? (flags : Flags) : Node → Option (Nat → Bool)
  | .point n => some (samePoint flags n)
  | .notPoint n => some fun m => !samePoint flags n m
  | .any => some fun n => flags.dotAll || n != 10
  | .set negated items => some fun n => items.any (·.test flags n) != negated
  | _ => none

/-- The places behind a run of characters that pass a test, the farthest first; `most` limits it. -/
def runPlaces (test : Nat → Bool) (groups : List (Nat × Nat × List Nat)) :
    Option Nat → List Nat → Nat → List Place → List Nat → List Place
  | most, before, position, places, after =>
    let places := ⟨before, after, position, groups⟩ :: places
    match after with
    | [] => places
    | n :: rest =>
      if most != some 0 && test n then
        runPlaces test groups (most.map (· - 1)) (n :: before) (position + 1) places rest
      else places

def firstPlace (next : Place → Option Place) : List Place → Option Place
  | [] => none
  | p :: rest =>
    match next p with
    | some q => some q
    | none => firstPlace next rest

def matchRun (test : Nat → Bool) (kind : RepeatKind) (least : Nat) (most : Option Nat) (p : Place)
    (next : Place → Option Place) : Option Place :=
  let places := runPlaces test p.groups most p.before p.position [] p.after
  let places := places.take (places.length - least)
  match kind with
  | .greedy => firstPlace next places
  | .reluctant => firstPlace next places.reverse
  | .possessive => places.head?.bind next

mutual

def matchNodes (widths : List (Option Width)) :
    Nat → Flags → List Node → Place → (Place → Option Place) → Option Place
  | 0, _, _, _, _ => none
  | fuel + 1, flags, nodes, p, next =>
    match nodes with
    | [] => next p
    | n :: rest => matchNode widths fuel flags n p fun q => matchNodes widths fuel flags rest q next

def matchNode (widths : List (Option Width)) :
    Nat → Flags → Node → Place → (Place → Option Place) → Option Place
  | 0, _, _, _, _ => none
  | fuel + 1, flags, node, p, next =>
    match node with
    | .point _ | .notPoint _ | .any | .set .. =>
      match node.single? flags, p.step? with
      | some test, some (n, q) => if test n then next q else none
      | _, _ => none
    | .anchor a => if a.holds flags p then next p else none
    | .branch choices => matchChoices widths fuel flags choices p next
    | .group index add del body =>
      matchNodes widths fuel (flags.combine add del) body p fun q =>
        match index with
        | none => next q
        | some g =>
          let text := (q.before.take (q.position - p.position)).reverse
          next { q with groups := (g, p.position, text) :: q.groups }
    | .times kind least most body =>
      match body with
      | [n] =>
        match n.single? flags with
        | some test => matchRun test kind least most p next
        | none => matchRepeated widths fuel flags kind least most [n] p next
      | body => matchRepeated widths fuel flags kind least most body p next
    | .look ahead negated body =>
      let width := (nodesWidth widths body).least
      let found := (if ahead then some p else p.back? width).bind fun q =>
        matchNodes widths fuel flags body q some
      match found, negated with
      | some q, false => next { p with groups := q.groups }
      | none, true => next p
      | _, _ => none
    | .reference g =>
      match p.group? g with
      | none => none
      | some text => (p.follow? flags text).bind next
    | .condition g yes no =>
      if (p.group? g).isSome then matchNodes widths fuel flags yes p next
      else
        match no with
        | some no => matchNodes widths fuel flags no p next
        | none => next p
    | .atomic body => (matchNodes widths fuel flags body p some).bind next

def matchRepeated (widths : List (Option Width)) :
    Nat → Flags → RepeatKind → Nat → Option Nat → List Node → Place → (Place → Option Place) → Option Place
  | 0, _, _, _, _, _, _, _ => none
  | fuel + 1, flags, kind, least, most, body, p, next =>
    match kind with
    | .possessive => (matchAll widths fuel flags least most body 0 none p).bind next
    | kind => matchTimes widths fuel flags (kind == .reluctant) least most body 0 none p next

def matchChoices (widths : List (Option Width)) :
    Nat → Flags → List (List Node) → Place → (Place → Option Place) → Option Place
  | 0, _, _, _, _ => none
  | fuel + 1, flags, choices, p, next =>
    match choices with
    | [] => none
    | c :: rest =>
      match matchNodes widths fuel flags c p next with
      | some q => some q
      | none => matchChoices widths fuel flags rest p next

/-- A repetition that was matched `count` times; `last` is where the last one beyond the least number
started. -/
def matchTimes (widths : List (Option Width)) :
    Nat → Flags → Bool → Nat → Option Nat → List Node → Nat → Option Nat → Place →
      (Place → Option Place) → Option Place
  | 0, _, _, _, _, _, _, _, _, _ => none
  | fuel + 1, flags, reluctant, least, most, body, count, last, p, next =>
    let again (last : Option Nat) : Option Place :=
      matchNodes widths fuel flags body p fun q =>
        matchTimes widths fuel flags reluctant least most body (count + 1) last q next
    if count < least then again last
    else
      let more (_ : Unit) : Option Place :=
        if most.all (count < ·) && last != some p.position then again (some p.position) else none
      if reluctant then
        match next p with
        | some q => some q
        | none => more ()
      else
        match more () with
        | some q => some q
        | none => next p

/-- A repetition of which nothing is given up. -/
def matchAll (widths : List (Option Width)) :
    Nat → Flags → Nat → Option Nat → List Node → Nat → Option Nat → Place → Option Place
  | 0, _, _, _, _, _, _, _ => none
  | fuel + 1, flags, least, most, body, count, last, p =>
    if count < least then
      match matchNodes widths fuel flags body p some with
      | some q => matchAll widths fuel flags least most body (count + 1) last q
      | none => none
    else if most.all (count < ·) && last != some p.position then
      match matchNodes widths fuel flags body p some with
      | some q => matchAll widths fuel flags least most body (count + 1) (some p.position) q
      | none => some p
    else some p

end

mutual

/-- How often parts may be repeated at least, all together, and how many parts there are. -/
def Node.cost : Node → Nat
  | .branch choices => costChoices choices + 1
  | .group _ _ _ body | .look _ _ body | .atomic body => costNodes body + 1
  | .times _ least _ body => costNodes body + least + 1
  | .condition _ yes no => costNodes yes + costOpt no + 1
  | _ => 1

def costNodes : List Node → Nat
  | [] => 1
  | n :: rest => n.cost + costNodes rest + 1

def costOpt : Option (List Node) → Nat
  | none => 0
  | some ns => costNodes ns

def costChoices : List (List Node) → Nat
  | [] => 1
  | c :: rest => costNodes c + costChoices rest + 1

end

def searchFrom (c : Compiled) (fuel : Nat) (before : List Nat) (position : Nat) : List Nat → Option (Nat × Nat)
  | [] => (matchNodes c.widths fuel c.flags c.nodes ⟨before, [], position, []⟩ some).map fun q =>
    (position, q.position)
  | n :: rest =>
    match matchNodes c.widths fuel c.flags c.nodes ⟨before, n :: rest, position, []⟩ some with
    | some q => some (position, q.position)
    | none => searchFrom c fuel (n :: before) (position + 1) rest

def Compiled.search? (c : Compiled) (text : String) : Option (Nat × Nat) :=
  let points := text.toList.map Char.toNat
  searchFrom c ((costNodes c.nodes + 2) * (points.length + 4)) [] 0 points

/-- A part of what takes the place of a match: a text, or what a group has matched. -/
inductive Piece where
  | text (s : String)
  | group (g : Nat)

def Piece.expand (p : Place) : Piece → List Nat
  | text s => Text.toPoints s
  | group g => (p.group? g).getD []

/-- From the left and without overlap, every match gives way; `skip` characters belong to the match before. A
match of nothing is left alone. -/
def replaceFrom (c : Compiled) (fuel : Nat) (pieces : List Piece) (before : List Nat) (position : Nat) :
    Nat → List Nat → List Nat
  | _, [] => []
  | skip + 1, n :: rest => replaceFrom c fuel pieces (n :: before) (position + 1) skip rest
  | 0, n :: rest =>
    match matchNodes c.widths fuel c.flags c.nodes ⟨before, n :: rest, position, []⟩ some with
    | some q =>
      if position < q.position then
        pieces.flatMap (Piece.expand q) ++
          replaceFrom c fuel pieces (n :: before) (position + 1) (q.position - position - 1) rest
      else n :: replaceFrom c fuel pieces (n :: before) (position + 1) 0 rest
    | none => n :: replaceFrom c fuel pieces (n :: before) (position + 1) 0 rest

def Compiled.replace (c : Compiled) (pieces : List Piece) (text : String) : String :=
  let points := Text.toPoints text
  Text.ofPoints (replaceFrom c ((costNodes c.nodes + 2) * (points.length + 4)) pieces [] 0 0 points)

end CodeMigration.Regex
