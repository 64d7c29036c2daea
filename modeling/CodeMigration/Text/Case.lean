import CodeMigration.Text.Class

/-! # Lower and upper case

The full case mappings of Unicode 14. A capital sigma at the end of a word becomes the final form. -/

namespace CodeMigration.Text

/-- `count` code points from `first` on, `stride` apart, all moved by the same distance. -/
structure CaseRun where
  first : Nat
  count : Nat
  stride : Nat
  shift : Nat

namespace CaseRun

/-- Reads runs whose first code points are written as distances from the run before. -/
def ofNumbers (base : Nat) : List Nat → List CaseRun
  | gap :: count :: stride :: shift :: rest =>
    ⟨base + gap, count, stride, shift⟩ :: ofNumbers (base + gap) rest
  | _ => []

def map? (r : CaseRun) (n : Nat) : Option Nat :=
  if r.first ≤ n && (n - r.first) % r.stride == 0 && (n - r.first) / r.stride < r.count then
    some (moved r.shift n)
  else none

end CaseRun

/-- Reads entries of a code point, a length and that many code points. -/
def specialOfNumbers : Nat → List Nat → List (Nat × List Nat)
  | fuel + 1, n :: len :: rest => (n, rest.take len) :: specialOfNumbers fuel (rest.drop len)
  | _, _ => []

def lowerRuns : List CaseRun := CaseRun.ofNumbers 0 (numbers "eDG1bEH71bEXH22b73227822AG22b311fJ1322811jQ1222411jI1112
  221jG2112311dM111jA111jC1112211jG111jK211jS111jO1112411jS111jW211jY1322611k61112211k63112211k61112221k42222411k81112
  4112811411122114111221141922C922C1141222411eE111cI1D22X11g12922H11ti41112211hH111thY3112211j2111d9111d=1522gX2226112
  911fA711bQ231bO411cZ221cX3A1bEB91bEb111@9<22L11cQ3112211=1112331g13@1dO@P1bEbUA22ZK22b;11N1722?b522c;V1c:cq3V1mzUW11
  mzU611mzUqSbU1crnKbU61@bz?b01fjVb231fjVhFbP22dM11nq72b522cB81?@61?@81?@81?@61?A42??81?P81?@81?@81?@21?221dB211A<41dZ
  411A<21?221eK>21?221f8211=<21fX221fT211AgX11nlJ411ozV111ou;711b=b3@1PS112t2J1b9brAb51c:c:112211tfL111gv@111teW332261
  1th@111tfX111thF111thD21123112921tj02b722cE2227112bbu8G22bE>22dQ722@O22bL222411clf>1522=112211cxqE32226:22D11cxrR111
  cxs=111cxs5111cxrL111cxrR211cxpD111cxqI111cxpJ111br71822@11c9111cxrP111clhP122291126222O112tyZJ1bEbd0X1bUe4T1bUeD12
  bS1:1bS;?1bS@71bS821bSbp9b81cZcu8P1bEtpQP1bEbccRR1bI")

/-- The code points beyond ASCII that map to more than one. -/
def lowerSpecial : List (Nat × List Nat) := specialOfNumbers 8192 (numbers "h32cCs1")

def upperRuns : List CaseRun := CaseRun.ofNumbers 0 (numbers "e911biHb0G1bDH71bD711fK2H21b511kQ23217821AG21b4321511nX1
  11j33221511141116111311eF4111111hI411g23321711151113111422151114111211cJ6111111321111113211111132821?11dL2921C111111
  321114D21Z921I111321tj131115521911thG111thA111thE111jP111jH221jF311j@211jB111cxs>411jF111cxs6211jJ211cxqF111cxrS211
  jN111jR111cxrS111tfM111cxrM311jR211tfY111jV311jX811teX311k5211cxrQ111k5411cxqJ111k5111d8121k3211d<611k7;11cxpK111
  cxpEdV11dWb12216111431g2b611bP131bN4A1bDA11bB191bD911cY121cW311cU111cK411c7111cE111?2<21G11dZ111dN111>111f@211eC3111
  3111b:P1bDP@1dNAA21ZK21b<721=11M2b521d?V1c9cq3b01fjWb231fjWrP61?byR11leU111leS111leA121le=211le?111le1111lbD111clc<
  fJ11clf?411gvAA11clhQcMbP21dI11cO6b521c981@@61@@81@@81@@61@A42@?81@@21dC241e0421eL221fY221f9221fUb921@>11mx4B21@@21@
  511>iA11b<R@1OD111tKJ1b8brWb51c9b6111411ti3111thX2321;1113111;b721cE2217111=V1mzTW11mzT611mzTbbsTG21bE>21dQ721@O21bL
  2215521=1115221311c:3:21N821C22191116221O111u111br6MbU1crnJtf0J1bDbd8X1bTe4T1bTeC12bR1:1bR;?1bR@71bR821bRbpRb81cYctC
  P1bDtpQP1bDbccTR1bH")

/-- The code points beyond ASCII that map to more than one. -/
def upperSpecial : List (Nat × List Nat) := specialOfNumbers 8192 (numbers "f82bXbXhL2q<bSlG2bOs6v93vBs2rVvY3vNs2rVbgW
  2bf0bfMha42bMt0ha52bYs2ha62c1s4ha72c3s4ha82bFq>heB2vNs=heD3vNs=rUheF3vNs=rVheH3vNs=tAhfG2hcPvBhfH2hcQvBhfI2hcRvBhfJ2
  hcSvBhfK2hcTvBhfL2hcUvBhfM2hcVvBhfN2hcWvBhfO2hcPvBhfP2hcQvBhfQ2hcRvBhfR2hcSvBhfS2hcTvBhfT2hcUvBhfU2hcVvBhfV2hcWvBhfW
  2hdEvBhfX2hdFvBhfY2hdGvBhfZ2hdHvBhg02hdIvBhg12hdJvBhg22hdKvBhg32hdLvBhg42hdEvBhg52hdFvBhg62hdGvBhg72hdHvBhg82hdIvB
  hg92hdJvBhg:2hdKvBhg;2hdLvBhg<2heZvBhg=2hf0vBhg>2hf1vBhg?2hf2vBhg@2hf3vBhgA2hf4vBhgB2hf5vBhgC2hf6vBhgD2heZvBhgE2hf0
  vBhgF2hf1vBhgG2hf2vBhgH2hf3vBhgI2hf4vBhgJ2hf5vBhgK2hf6vBhgN2hgVvBhgO2v:vBhgP2uZvBhgR2v:tAhgS3v:tAvBhgX2v:vBhh32hh;vB
  hh42v@vBhh52v2vBhh72v@tAhh83v@tAvBhh=2v@vBhhC3vBs2rUhhD3vBs2rVhhG2vBtAhhH3vBs2tAhhS3vNs2rUhhT3vNs2rVhhU2vJs=hhW2vNtA
  hhX3vNs2tAhi82hi@vBhi92vRvBhi:2v8vBhi<2vRtAhi=3vRtAvBhiB2vRvBcfm>2bKbKcfm?2bKbNcfm@2bKbQcfmA3bKbKbNcfmB3bKbKbQcfmC2
  bXbYcfmD2bXbYcfmQ2bf?bfAcfmR2bf?bf0cfmS2bf?bf6cfmT2bfIbfAcfmU2bf?bf8")

/-- Lower case of one code point, apart from the rule for capital sigma. -/
def lowerPoint (n : Nat) : List Nat :=
  if n < 128 then [if isAsciiUpper n then n + 32 else n]
  else match lowerSpecial.lookup n with
    | some ns => ns
    | none => [(lowerRuns.findSome? (·.map? n)).getD n]

def upperPoint (n : Nat) : List Nat :=
  if n < 128 then [if isAsciiLower n then n - 32 else n]
  else match upperSpecial.lookup n with
    | some ns => ns
    | none => [(upperRuns.findSome? (·.map? n)).getD n]

/-- Whether the first code point that is not skipped has case. -/
def meetsCased : List Nat → Bool
  | [] => false
  | n :: rest => if isCaseIgnorable n then meetsCased rest else isCased n

/-- Lower case of the code points after `before`, which is in reverse order. -/
def lowerFrom (before : List Nat) : List Nat → List Nat
  | [] => []
  | n :: rest =>
    let here := if n == 0x3a3 then
        [if meetsCased before && !meetsCased rest then 0x3c2 else 0x3c3]
      else lowerPoint n
    here ++ lowerFrom (n :: before) rest

def lowerPoints (ns : List Nat) : List Nat := lowerFrom [] ns

def upperPoints (ns : List Nat) : List Nat := ns.flatMap upperPoint

def lower (s : String) : String :=
  String.ofList ((lowerPoints (s.toList.map Char.toNat)).map Char.ofNat)

def upper (s : String) : String :=
  String.ofList ((upperPoints (s.toList.map Char.toNat)).map Char.ofNat)

end CodeMigration.Text
