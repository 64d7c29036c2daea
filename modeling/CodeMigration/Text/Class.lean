import CodeMigration.Text.Ranges

/-! # Character classes

Classes of code points by Unicode 14 properties. ASCII is decided by comparison, the rest by table. -/

namespace CodeMigration.Text

/-- Letters and numbers beyond ASCII that start no identifier. -/
def wordTable : CodeRanges := .ofText "e615022q;0r:9d59eJ9jI9cP945cF9cP9cP925cH<cM986cA9cB67BcG9bH0L9c30L9bKCg:9bK9qOC
  ba5969F9gZ9cZ:dT969e:9c09d5969y>03569eJ?Y0qVb@bSEoLMbg90h40u63d99N71>P9W>bakV9m25dI9V9eJ9F9c09jC9skJ5jC1cN0101010101
  01010d@9d31i?b1bF3A1hXJT3iT9vW7I6W8bP4F5dO12?2b2bE8b91N2bP4cB7H7Y6hM5b59gTNdM9Z3cJ6d5McZ9bA9d?97CfT9hY9cP9iN9c@9c@;
  jQBc79rKLf<9bK9mBDrbR9c09d5916sHFwz2CcFHzRb6cd39jS9biG8cZ9sAb?1213bQb11>w@<cmS9"

/-- Decimal digits beyond ASCII, each range a number of whole runs from zero to nine. -/
def decimalTable : CodeRanges := .ofText "blY9d59eJ9jI9cP9cP9cP9cP9cP9cP9cP9cP9cP9c:9cP9bK9gD9bK9br=9V9gZ9cZ9dU969e:9
  c09d5969bfo:9pQ9V9eJ9F9c09jC9taL9bgV9byP9sV9cZ9bA9d?9gD9hY9cP9iN9c@9c@9jS9c@9rK9fO9bK9roN9c09d59yvMb6cd39jS9blO9egL9"

/-- Code points beyond ASCII that are neither separators, controls nor unassigned, nor in an identifier. -/
def printableTable : CodeRanges := .ofText "dP81116101114G0O0kL3<=56101@cO0403051cJ0d:051eT5Y122b30102020b11A9;012bO3
  c@090:0C11=fA341b5>O0Y0f41:0d0910cR0cS1cX015cR:cV840eN086A9cT0bO0?0:1dTF25::101013bL0b=7151<cI5bS1c50o:89:C9c@0oB1b1
  1bS2bL1dL213D96:h8031dGQN1cZ615@0dJ@9:cW3b@4bC1bE7;0r>012;2=2=2=1AG8>2B19A03:1>APL312K11311:01165101010@144531@Y24pA
  I:Ebq52O1cBf>5>6cJ0d>c7RI1c2<eYJ;533H?05152c5130c40dC?PSLN1l6fx=bDtv?b;b<1g;2c:3:0cM58F91cA1dL349b?3c01X210b61b40c;<
  @1cV3G2c>1@1cC0>1cY0sdP0d7@dJ5f3AcY0Z5@9F22G321B134010101010101010d1>:6J310J:cT616=1g024b138b:I1<30b4b1f=JT3cU0b50jK
  0r<8G8W8bP4F530O0cV12?2b2bE878T2M2X0R;bG6H7H7I3<6hM5i8Nb30cI9Z8b13b@6cU64CbZ113cX3b51bT340=0121CbH5cE0jN4:110cB0fSF
  cC2L<bQ0cZ5fT0e28bV2dJ0c67bX214jK4DB31p01eKb6=0baB4cq@1nk71d40bF841E6sHJhJ0roQ020eh;cMbAfN:V2b@52F17M4bAEbF30dIC<c09
  HtG0I0O0I0O0I0O0I0O0I0bAlVb<3b771=16bo;0k10biA8d=1s;bHbQbAk41g<b04c=<>2>1>1T:e1b=L=b04871>5dIwU5?3<3cM<c27;40?;4b<89
  6W8M21bShV<=2434369L3:55:967869dA1b;"

def identStartTable : CodeRanges := .ofText "dY0:0405F1N1kK4;>47010d041132106012101C1bW1d98dT1U206XbLJ43b2ZS11c<10?171
  :220@01MMc2;0HP91405E409030GH7:5G15AYb?b:30B079??47212E16103330@0=112>1:085412E16111111O310C2@8121E16111430B0?1G0;72
  12E16111430N112?0A015321331101131323;F0b97121F1?30J22021N047121F191430O111?1A8121X20@05282H55A3G181026b?b410=6b?1101
  41G101910:02410E3P0bD71SK4cMZD0@5433031724<<0AU10502Z1hO132610132X132P132610132>1b=132bGU?@bZ253oA2@1I5bO3:7A=B>A><1
  2?b8S040bHc27X105bJ:Nb6M24;b04Ib;F9b9bW0c7b3A7b;M=1:b0JSY2:S287Z22Y31511305eCbEgC252U25271010101N2b91610321633254<52
  16cN0=0@<c?0402910256010101?235440AXck=f=6331<U10502b<70@F9616161616161616mR2I874244bZ621c3135Z1c7AOb5?lWfx<bEtv;bH
  b22g:3?:1Db3@N2bTW82c@2bD511014H?12131FMb8>b6bC53011;K:FIL7b3L0@419:41XG217DF303b61031242010H22:72<5252596161Z1=6cLM
  jzR<F4b5hoHiE2cCV6<450191<141011111cEQd96f2BbD2b:X9cQ010301010101cWTI6I;b<2N35252522S;1I1B111>2=RcTbJb9g9L3b5b4O=M5U
  :M2S4714ZdLBS4S4W8b8<:1>16111:1>1611bHh99E:7H51Y18bJ5201b011302F:F9NbFB11:E:IbKb<61bE0?3121LZL3LS71KKb::E:B=AcHbMb<
  b7=b7=Si4Y61bSL:08EZAb3DKF<b9b>120=b1PHJSM0208R30<b4>3E010SA1HbY610131>197b3V7212E16111430B0<4dMb9B3D2Nb4D110e<b3Y3T
  b4D0b@Z=0bLJU6e=b0cNbDO72027111G?010c872V@010L0:W70E0;b2C0BbMg581TA0b6McJ6111UE0I5111O>0hJBeA0bTvBc@cHAeGcj=c:?yVdq7
  nGhsQn97NAbSAMBb4@3OD5Bq0bDcZbO50bG<bE110LfmM8bcQZ8hzR316111gPb22A38j8cbMcD5<3879fj=bY1bK112021231;10161bE1327161K13
  1410361hV2H1H1N1H1N1H1N1H1N1H17bqVNl8b1:6@0hDMBb0bdE613111>1eHb@bH70bc031J111020191310106040101012111020101010101110
  2316131310191@52141@dyRbmfDPdsH7f62fdZ>grQcu7mIbj1ekT"

/-- What continues an identifier and starts none. -/
def identContinueTable : CodeRanges := .ofText "e;0nIcIG0fT4g7b110111110bM:b5N60c?625211329G0NJc5:?9Q890H3181214b02bA7
  ZG1Pb;21A16:129A2b=016212290:129>022b=014412230D;30;2b=0171212D129:512b=016212272:129B0b@4321390>9@4b<016121371;129A
  2b=016121371;129@3b<116121390:129A2bK04510176921bB017<719c1019;529bC169;0101041b6C115:1S90c>C19<342122633=;1>q?298vI
  3L2M1N1bEO9029Q21:d>0cP;4;:9cZ:bA4b>91L2:69F=1?b64b4@;9A8<2N<29b1=b5C8969cP21D406022eJbDn@1C0cU<403;ctA2d<0c:OmV5cC1
  baxL9bJ049P1bU1g>03040G440bX1b7A:96A=:L7I<b13b4=?9;0:9b4=<08129Q2b7012215110Y451fE71129sd70r6?@?31H2eD9U0c81o30f;0dD
  4gS9bfR21153X240dT1n>389iI1dH:b63cT2b:>O:21:3b2:70b2962T=1951b10<2b5=831;bW;60dO;5963b<116212290:12634eDA9940bVC<9eY
  628K1bW@?9bV<89bX>49fK>dT9bK511231011<9cQ62630L9X613809:b3?jB717@9b=E1=cT53011161089b54111489hL3rgY9c09V4b@6I9xH01b;
  73bV0;1roC1efBb22FmJ4358726N3dC2bgYb6lWb;4b680>0F41>bfK61@261114g3699i<0bB=biP6cG659egL9bbcp1fH"

/-- Code points that are skipped when the neighbours of a capital sigma are looked at. -/
def caseIgnorableTable : CodeRanges := .ofText "W060;0S010bL040104021lNeC41409110fT6eS050b6b110111110b10;5::10S0:D@0c?
  71913Q010NJc5:b?:4020HGb02b107167Yb>b<010474036:1=0?0b?04380D1J021b>041412230N130;1b>0441140D1F510b?020138071;1N0bB0
  <0b7030b<012521371;1M0b?0206051D1L1b>14380D1M0bM07210c4026;8c<0289015bO1K01010b<=14115:1S90c@3151121I142@3=02160?0c8
  0o62w02M1N1N1bE116802:3050b24b80bF1R0cP2419062f4120b?0161010276920W08Nb63b50141050X8<1P32112b=0113012b?721bE5bW21<16
  406031b7bC=0Rc>k?012;2=2=2=1<481:02024b641910=0@<b8PcqO1cK2cW0?0c:Ob40kW0T33450c75c72zl?0bd35g<0c<31910L3bU1>QbS0G2
  cA231803040I150dF1JA=0V7I:b32b502321A0E1bG52121<080S0;0b8012215110K0>15110c>492cS02040sdC0dB@n>?30<?R020dX07060;0S01
  0b40b21bH0E2lX0f;0dD4xX51Y18nG21153X240dT1n>3j01dH:b63cU0b;>Y021:2b63212040:0b72T417bC0<1b98:320c92201160dO037E1b>13
  0U634eG72210G0bY5104111fG36111K1bZ72011cD0102510c?22314g1811fY11040d?32140P9X523809522b3<11jC61510bWE261111cT5301116
  10bM13010i31ewA8mnP4b@693y30bD@bE111or<31611cx5113ef=b22FmL29?26N3dC2bu1b;4b680>0F41>bfK61@261114g3=iH0bB3biZ6cG7clJ
  4bbeeI0Nc9cZfH"

/-- Code points with case that are not skipped there. -/
def casedTable : CodeRanges := .ofText "bFI6Ib40:0405F1N1eF134eS1JeD32132106012101C1bW1d98dT1U9Xco1U10502Z22pKbZ25byL8
  7Z22bEb0bD<1Qc?gC252U25271010101N2b91610321633254<5216g3040291034601010131540235440AO31t0b8bq8cU2c@6331<U1050bbsRb2B
  Kd5bR1F331b?511014K130t4Z587bTsdS6<4y1I6IbbLbTc:S4ScN:1>16111:1>1611bo;b7=b7crFbDto<bDxg<bY1bK112021231;10161bE13271
  61K131410361hV2H1H1N1H1N1H1N1H1N1H17bqV91CcgSbHbv7I6I6I"

def isAsciiDigit (n : Nat) : Bool := 48 ≤ n && n ≤ 57

def isAsciiUpper (n : Nat) : Bool := 65 ≤ n && n ≤ 90

def isAsciiLower (n : Nat) : Bool := 97 ≤ n && n ≤ 122

def isAsciiAlpha (n : Nat) : Bool := isAsciiUpper n || isAsciiLower n

def isIdentStart (n : Nat) : Bool :=
  if n < 128 then isAsciiAlpha n || n == 95 else identStartTable.contains n

def isIdentContinue (n : Nat) : Bool :=
  if n < 128 then isIdentStart n || isAsciiDigit n else isIdentStart n || identContinueTable.contains n

/-- Marks that start identifiers though they are no letters. -/
def startMarks : List Nat := [0x1885, 0x1886, 0x2118, 0x212e]

def isWord (n : Nat) : Bool :=
  if n < 128 then isIdentContinue n else isIdentStart n && !startMarks.contains n || wordTable.contains n

def isDecimal (n : Nat) : Bool := if n < 128 then isAsciiDigit n else decimalTable.contains n

def decimalValue? (n : Nat) : Option Nat :=
  if n < 128 then if isAsciiDigit n then some (n - 48) else none
  else (decimalTable.range? n).map fun r => (n - r.1) % 10

/-- White space: the separators and the blank controls. -/
def isSpace (n : Nat) : Bool :=
  (9 ≤ n && n ≤ 13) || (28 ≤ n && n ≤ 32) || n == 0x85 || n == 0xa0 || n == 0x1680 ||
    (0x2000 ≤ n && n ≤ 0x200a) || n == 0x2028 || n == 0x2029 || n == 0x202f || n == 0x205f || n == 0x3000

/-- Shown as it is inside a quoted text; anything else is escaped there. -/
def isPrintable (n : Nat) : Bool :=
  if n < 128 then 32 ≤ n && n ≤ 126 else isIdentContinue n || printableTable.contains n

def isCaseIgnorable (n : Nat) : Bool := caseIgnorableTable.contains n

def isCased (n : Nat) : Bool := casedTable.contains n

end CodeMigration.Text
