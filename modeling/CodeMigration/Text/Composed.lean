import CodeMigration.Text.Class

/-! # Compatibility composition of identifiers

Two spellings of an identifier are the same when their compatibility compositions (NFKC) agree. The
tables hold what can occur in an identifier. -/

namespace CodeMigration.Text

/-- Compatibility decompositions of code points that no pair composes to. A run is a distance from the run before, a
count and a length, with the decompositions of that many code points in a row, each point as a move from the one
before; length zero stands for single code points that count on from the one that is given. -/
def decompositionText : String :=
  "dY11eF;11bsD511f7cR22dA2bC2=22dGeZdDdE:12bgHbbBb;11f?bJ33d7b1bg4bh4cFbeJbfJb1beJ362dG34bA43b<78b=87Z32d7b1b0cFb0b1
  eC91eTxOxJ@y64<y;4b551bcBx@>:z7c:21bjO2311bkJ112bk4=b511bgBC11iFbN31bs0<U521bsX;K31bs@>2421bqRb?511br=j;12cm:b?fG42
  cv;dIc1c2dUdTbXbYr882ee6bSbPbQbNbObDbEb:b;b8b9QRIJd322ekLb;b8b9312el=JbY12erAD312erM8S32eq4bQbNbObDbE512er3RfW22fcF
  b;b8b9qW12go<b:cZ12gu:b:Y22gsLSTCcA12gzMfC:12ha6eZ512ha@eP512haJeF512haTe<=12gzIfC:12hbU2222hbU6cVc=213heVd0N112heX
  c?113heXd2N812hbUNB12hdAbO:12hdUb;512he4b1512he>R512heHH=12hd=bOhF11hsPcuH31d1g8g5431d72p=380d=9B1dMvOvL4424Dx12mfS
  ncS42x;42x<CL1eZ4k>k9wHmgJ2nd682nd9mfLxDndGlr022T2bo3B62bmF2L:2Y11byDSU1bbKx0x7qIqXx>xE48622mk<mhVc9mkJmi;c5142226D2
  k1k>2me@me=2yKyT22nMfX12eFbc6f012brYi7212bs6i?212bs:iC212bs>iG212bsJiS212bsVj4212bt3j<bC12bqDgM311bs>;12bqLgU212bqP
  gY813bs>i9=812bqTh2813bsViQ=812brAhJ>12br5h>212brIhRcP11eV>11f5A=1eF8DBw@x46222462cL11d5511sJ3:1eRbB00bEiVk=06bE;11
  dK430dO321dS0811e8211brI211e8211dE112d1bh7121d32331eNbD2471dIbIcm2222cmC941bsLIbDJ951d7bE282K11dA112dA0113dA00112dAJ
  111e0112e0I113e0I0114e0I00112dAN111e4112e4M113e4M0151dGA2Bb=512eV0113eV00112eVJ111fE112fEI113fEI0114fEI00112eVN111fI
  112fIM113fIM0141f1A2BcnE21eXWfL11uu>qI31bmd=62cA12wfU4c:12whUZb791huB2hUhRhW2hV22960icJ651hvKW22b75:0huT:E0hyXED1hyV
  dF2i<284:84iQiZ4j0244284D50hwB5B1hwP8D>:hM2h822c026B24D6bav<21bz34eX11cyrKd131d56F621nMc4u841cyo<bw@czhTczj5=11be@
  rtXg<1cmg>rcCsg>xVnsQoyAcpUbirG0bgeYzwPbbpTbsNdz?jjEeeDdc4rKoRdm@rr0bkVbsHbjYhmXgaVdxGbio7cgXkuFdgBjeZkz3bdrJinGkaH
  bqPrrLofScwPsy5duTcx=co>nr3bdx<ba4nOif5cu6di8cfKee@ctMe0dm8eg<byDbe<rdLl=bx7cv?gz?fgNja3wwWcv7nlIbx1glZcy<jdQerGbclL
  bq6gh1bsZo@gm8m<laNbex@uyBvjTOsm0br;cvSimDfaCsqEdhOpcPbbvHggVbxKixMwPpsYrj7swYhhEibLoc4dj:kvQsyIccToaRgc6cxYoe?qm8
  qcIejHopUoi=idIrsYbgFeDkkFjiVcnUdvUdf9bcu?pEcjScn7ddGerOef9nbEceBbxOcHbix<jg6cdUqlMwkIbl1f9beZevCzIbmNckHbxIbdGgt9
  erLfdCblGbdw=gFz1mvWkzEwNucCnYbpYdtKhp9eaIqt@ds:cgNvObc@iz9iFfd;i0ifEceLdSjMbhfTthOla2chOyr2ikGbbOfbWdQeh?caFdoTcb1
  gt?fgXgxAbacWvv?bezBjpAfIcl7q6cmJpKbkHcd=mn5bgmMhrExyJbgf2fxYhs:pfWvv0uFdd;fg8qaNbfhZwJdv;el;oLq4byDdgVw6ek8eh7Tec8
  ciHbez>mp9meUnpKbh5hyZhq@cpWbb7zf:cvUjfEdgMdYr9emWzJmgDbbtDyaLwl:c?fu<bxOlxOpgMibGcy?soHdeGgkPfvVtoKgfJcbIg>11bom021
  1buxW3:1blmRpgDbr7bd5bI>bYnqHmeKbjM;11cjk@211clqN321cob9j75bI1csaZJc2cc6fwScrKbgnRoHePrMb;f3bb?eVeHvYeTbsDDbxAjUbQeL
  bo2gTi6x;cgVhIm<bb?iRxAcaRi2F1@<>c:2i<d1oTba:ZcJo8gTwNgF0w:ce:g:qVcJt3cDbfWg2dbAn9cRzo3imyRhxo;bKcD1bjuFbq@dHwMv3cP
  p9c@bfAd>d7dAbdAe6gPPmHj9brK>gNd7nWfEd:g:c5gRd3sJe4cFm4n=hI8cPbx;d1s8t3Oe2lOpKcw4cmSfMfOp9gXcDkF4hYRb7e0CsBwHmJiNkB
  h5p?j;bn=h=bq6v9d9PnScLc3cF5QdGdQrQba2oJnOk<bvWeRf?g8bMHc:bhScc2gxvK;fhOiwxNcb?bGjitCev?poZilq5dEd?32eP0065<323eP065
  0<222f?212>52cmX43MNAV?3=:12crKbN212csRcO191cs2S62>22F4:22cs@bTbUbR223cs@c3:bUc3<292cr9b6b7b4b5WZYb1b0b3b2b5b4b7b6b9
  b8:52crIb<b?b>bAb@bCbBbEbD612crUbH222crYbLbObN322cs4bRbUbT3:2cs:bXc0bZc2c1c4c3c6c5b7b<b5Sb=b<bObNRH:bY1cyN0D00060004
  000;000:000;000c00004000bH000100060002000<01040;0P0=0b5000<00080003000B02000bY22dd?fZg0fZ2:1dcB0005000X0:22dd9fTfUfT
  S:1dbE000b901040:12dcNdT1<1dcV0;080>000g;0<B3cwVDc3bKDc3bKDg0gCDg0gCDG4DG4Df?fRDf?fRDf=fPDf=fPDfAfTDfAfTDfQg9DfQg9D
  fQg9DE2DE2DEB41dcX000453cwVDbTbADbRb?DM:DE2DC5c32cv=87:9<;b?b>bGbFbIbD436587b;b:bCbBbEbB21b9b8bAb@bCb@21b7b412b5b234
  12b3S=>;<9:TO?@PMCDAB?@NKCDLIJGIJHEKLF7YZWXUV87@?B?YZ65>=@=b<b=b2b3b0b1YZ2143<;>;b4b5b2b3b0b121:9<9b6b7b4b5b2b30087:
  7b8b9b6b7b4b5126585b:b;344360b@bAb>b?b<b=9:120b8cZcWcXbRbSc963cwVDbJb7DbHb5DM:DK8DE2DC6b22cv=BADCb?b>bAb@bGbFbIbD>=@
  ?b;b:b=b<bCbBbEbB<;>=b9b8b;b:bAb@bCA@?B?>=@=b<b=2143<;>;21:9<9b@bA02YZWX12006581bSbPb6b7b4b59:78120b253cwVDbTbADbRb?
  DbPb=DM:DI5bH2cv=87:9<;b?b>bCb>436587b;b:b?b<b9b621b7b412b5b234b3S=>;<9:TO?@=>PMCDAB?@NKCFJGIJHEKLF7YZWXUV85YZ63b2b3
  b0b1YZ2141b4b5b2b3b0b12163b6b7b4b5b2b302b8b9b6b7b4b51220b:b;34bWbPb@bAb>b?b<b=9:5bH23cwVDM:DI2A2cv=b?b>bCb>b;b:b?b<
  b9b8b=WTSXURQV721412212269:5A33cwBL6QN4QP23bN2cw0TSVQPORONMPb2b1b0b3b0ZYb1b>b=b<b?b@b?b>bAb<b;b:b=YXWZWVUXb0?@=>;<RQ
  54387:9<TSVQPORONMPb2b1b0b3b0ZYb1b>b=b<b?b@b?b>bAb<b;b:b=YXWZWVUXb0?@=>;<RQ54387:96?@=>;<RSXUVOLS=>;<9<?@=>;BLIJb@bM
  bLbMc5bE3cvA4b7b:6136136b5b:8b3b:b;b63b;b45b;b23b7b41b7b40b5:b>b58b0;1>=2<=b?b0Tb4<Tb4<Tb6>T0ST0O?0@?0@P0Q=b5Q=b5Q?
  bAb0Rb2<Rb2<R0QR0MAb=U?b3M?b3KLb4DLb4DL0KL:QIb7GH0GH0GH8MF0EF:OF8?Ub37Ub356b4Z601b2b51b2b?;b2b=9b40b5b40b5b0b31b0b31
  2b4b32b4b5b41b7b4b50b4b?9b62b5b6b70b23b7b2b3bGb;3cwLb64b73b6b;302b6b52b6b=5b8b72b8b72b8b?51:718290:90b><b=bD4bAbD4b?
  bB8b=bD8b;bBb;:bDb;8b>b7:b@2b=b>b78b09b;W?b?b0=b?WAb?;b4bA;2:0b>b?0b@bA09:90:?6:7b6b??6b4b3b2b5GH:=4:7b82b5b2b=;b4b7
  3401b4b72b8212b?b>1bA9b6bAA8:bH:b?=40GIb7OP0S9b=7b8bAc823cvWNgJgM4gJ274cv;b?06bDb=b:BXb4b5b0<NEHW4Z7EF<52YR2713cvWN:
  b?21eB0J31eB00T12cwBF612cwBL212cwBN212cwBP212cwBR212cwBT111cuZ1<2cv;c2c1c2c1c4c3c4GHGHc3c6c5c6EDCDCDCD<cB1cv;0200020
  200020002000200020002020202020002000200020002000200020002000>00020002000200020002000200020202000cB63cwJb>c2Mb>c2Mb>
  c4Ob>c4Ob>c6Qb>c6622cwJb>b?b>E:0c:AJ0d1N11eB2J0eFUO1wkRdP4444cN44bLcLe74444244444444444644O60wiX641wj=666450wjU521
  wk64260wk>6>1wkL8e72ohReC2hUhRhW2hV22>60icJ651hvKW22b75:0huT=60hyX860hz9860hzE830hzQbtH51bhE2wSu:d:6Z1bfAczhCczh>1dJ
  2mm8mm5<dEd833cPr<r?cCb?bQ2cWikgRfmqGcxq5ikgPikf:ikf=iky7rQ2y3y:ikg>ikg724bU3czh?czh<bBtf1b091beDT2Ck122ikoZXbuu>J0
  d1JJ0eFJJ0d1J70eF8B0eVBJ0d1JJ0eFJ11d1221d52411d=321dC2440dK580dU840eF511eP270eT8;0f9;J0d1JJ0eFJ21d12340d7680dC970dU8
  J0eFJ21d12340d7550dA611dM470dU8J0eFJJ0d1JJ0eFJJ0d1JJ0eFJJ0d1JJ0eFJJ0d1JJ0eFJJ0d1JJ0eFJJ0d1JJ0eFJ21o8m84A0bqDA11bqR17
  0br=8I0brYJ61bs664H916A0bqDA11bqR170br=8I0brYJ61bs664H916A0bqDA11bqR170br=8I0brYJ61bs664H916A0bqDA11bqR170br=8I0brYJ
  61bs664H916A0bqDA11bqR170br=8I0brYJ81bs664H91b=2::0c:::0c:::0c:::0c:::0c:fb941cv;2865K1cwRb09DV=222U<@GJQ6C264<44cB
  dGb6c=L21cv=8311cwP311cvG2:1cwV=222U<@GJ;41cvUC26511cvY211cw6711cvE511cvG211cwV211cwJ231cwNU<421cvWJ311cvU311cvI211
  cvY211cw6211dc4211cyJ221cv=8311cwP341cvGDV=571cwL2U<@GJ841cvUC26541cvY44cB511daX2:1cv;286b52b09DV;30cwJ3>1cvS<@GJQ6C
  264<44C31cv=86451cwRb09DV630cwJ3>1cvS<@GJQ6C264<44daX:0c:cfsLmJ1bjvI9Bhre4hqqOdKJd=fIbCdKb4mxLifg0hscC>PVhrn9ierBndE
  bQhro@hrnVJbhTbi:Bkdw@kdt@LniYnlIFc2:nlTnpI4b;b1F2Rc>@Bb7D400hsx=hfqMnd4Zhth=htgO<Zh3eOPbEcNdWb9d5PbG0ZT@NpSmKmNj8bK
  caMde8n@bQb7g1hQ1fOhvl=hvi1:NX@cZhvxUd3hvuEc8HdLgJqg=Lqn9cF0hwmXhwgOZNHhwu6hwtH>bn=blZqu5qx1LdSc?hxu<hxlRhxlWhxjV5R
  eN2rgUri6c0Zc2rkQiqa2ipySrmV66Xkfz?kfwWhzc>0hjbBpz80roMixs:vp9jbpPBrqQrsZc@DbIg>rzLb@sbYiaaPhzy?g0843c6XbMKFc8X8b9F
  d3dWbKfQiasBiat<d0f1b;eFiaw8iat<e=b<szVtiTZbCbPtgItqLb?icaPibv8mVi5tu9txIty?bLkk26jv1eKly@bbw;qdK8<cTEicwBixaQum6fB
  jGc@icq4icpLf6lAuv>uxEeFd=iTicqZicoIvkQvo2idj?idgYvnVvp=c4b;2idyRnn>nsBidx0ierYiemMLeOi6bUcLcEbUNJiei2ielRlMcXwo7wsF
  7ien=iewUr?iem4c:iek9f?b:5xdFxfOc@;cFhdg0hcyWifa6iew3ifl?ifeSJb;igf5igcUZigpWk@igpJRyfFygPyg70ynOZZXd9yp8ytAiht1ihrR
  ihw4ihtPhoc@hnuWiiwPb3gFjhy9HzdYijbU1bSb9ijcU20c0zfLziNzi3dOjjkVijxBcVcZzpNjkfGikj@ikoRc0iko5e<zzFbadED:illGnW0ils1
  babPjmfWilu36bak9jmo4ilrFbaqWbarY9b?imzAimuQbat6baxScPd5bbb<joqXbCjoqKjoxCinjDino8inmWeNFioaVdAioa1iog:iofDhrePisy?
  bbwNdQbbxXbcaNrqSjgkFLxwOBhqoW6gfYbil@bcm0;TvyEvzC4DbWipqJipqKcJd;dCgAh7bYf9m3fG4PipqRo@gYjsqKbdf?4bKisoBiskQiqhS
  jtq78jtw8nCjuj6bdsNHF4cZbFg:c1h1dPd5b;bec3beg>bEbeg9bekL6isg:isaS>benNbep1bmp4kfpCiHjxrFBbfbUdIh=jCithOitdNb1e8e<
  ity>ccoWgrfDMcBgrnWgrd<eLiweDb;ivpFe>bEivyLivy7n;hA2e;rOb=iwtUiwcCbiuCbiwFiws6kfkUbjf9badDbahYixuFjWkhhP@bjlQiysN
  kibLkii8iyx80bAizj9izaIbjoYbjs<fUb;cRbjuYkkvIjanPo2iRbksObCbkw:jcaVkmwIkmz7m>g4jcg1blh6blk2:>D>bOjdoZ"

/-- For each second code point, the number of pairs that compose with it, and each of these as the distance of its
composition from the one before and the move of its first code point. -/
def compositionText : String :=
  "rUbYeDd188486<7<7H88486<7<f;eR1bELi31bEm3brE=6bHb?=6fx4blD12b@cL12b4lB1bEUdE1bE9bE12?cK1bEAb01bE9i012=L127pX1bE?nzE
  127>127>127>127>127>127>127>127>127>127>128@7>127>125ms12824242<2<28bCcI>8243mx;5muU8c;3na45mxP8bP3bjH;bj=2DrVcOeEd1
  88486<7<384@88486<7<389cE1bEb7b21bE9b@1bE@b<1bE5bB1bENb61bEc7eH1bELiA1bE5e@1bE1bB1bE1K1bEj3dN1biL2814142<2<181bGLb61
  814141TLG1<185Bb5d19>bLb79>fwTbp21bE=c012Gd61bE1hJ1bE=b@1bE=eT1bE5e2121lP1bESlG129mO1bEQdE1bE9bE12?cK1bEAb01bE9i012=
  L12Knl1127>127>127>127>127>127>127>127>127>127>128@7>127>12c;e0@cXrWPeFd188486<7<7H88486<7<=c=1bECb<1bE7bB1bE?b@1bEW
  b21bEGb<1bE1b@1bEgr:bB1bEKnuZ12Ib312AV12rXLeGd1>J42>T>J42b8bP1bEbDW1bEgr4bB1bEb2dG1bE9bE127iS1bE7eN1bEAb01bE9i012=L1
  29pX1bErYb1fYd11bEAb<1bEGb<1bEQb81bEMb81bEcDeR1bE8cI1bE1oZ121qA1bE9m412bBmU1bE1bF1bE3oH121vT1bEpZbr51bE;Y1bEftZbvB1
  bEGnqX12SbK12hWmfD8bDHbU8bD8c28bDs0Pg0d11bEAb<1bE9b@1bE=b@1bEQb81bEMb81bEpLbrS;EPbEUFc=c31bE>bP1bE5b:1bEfuCyA12dHnaX
  12fRmiO8bDHbU8bD8c28bDs1b3g8d51bE;b@1bE9b@1bE?b@bPR1bEdYcK1bE7S1bEgjLc31bE7b@1bECb@1bE3b@1bEMb:1bE3bB1bEAb@1bE1b@1bE
  7bB1bE3kP121:121nh?121ntV1bEKb>1bE3bB1bE3bB1bE<m8s2b;eHd178487<6<8H78487<6<38cSbDn3bmN1HOX1H9Jb2d56MbOc86bGcUd:1bE7
  hS121j21bE1bB1bE5bB1bE1b81bE3hW121iO1bE3bX1bE3b<1bE3b<1bEftVbvP1bEWf31bEb0fC129mS1bE7bB1bE:7s3Hha@d11bE5eF1bE9bE127
  iS1bE7eN1bE5hD1bE5b81bE5eN1bE9i0127pB1bE5oJ129pX1bEs46eId1PbEd8G1bEgrJ414s56hSdM1bEOb81bEuUbrS1bEs6Ug:d51bE1bB1bE;bB
  1bERb61bE9b@1bE@b<1bE7bB1bE3bB1bEHb81bEbTcK1bE1b41bE1b81bE1b81bE5eR1bE<iA1bE1b<1bE5pC1k81zLb3bH1bEs9>lWd11bE3b<1bE3
  b<1bE3b81bE3b>1bE3b>1bEo7bvI12s;<lYd11bE3b<1bE3b<1bE3b81bE3b>1bE3b>1bEs=>hcHbrY8bD8bM8bD8bI8bD8bI8bD8bQ8bD8bQ@88bDcV
  b5s>@hcIbrY8bD8bM8bD8bI8bD8bI8bD8bQ8bD8bQ8bD8bM8bDcVb57bDsE4jMdM1bE>b81bEsMZgwNd31bE7b@1bEGb<1bE=b>1bE3bB1bE;bB1bE3
  bB1bECb<1bE7bB1bE9bB1bEAb@1bE9bB1bE9b>1bE=cK1bEGb<1bEAb<1bE1b81bEEo8121pB1bE;oJ123pX1bEsN2gz;dY1bEsO2gwJd11bEsP4mDdU
  1bE1bB1bEsQFeKd5PbEb@b<1bECb<1bE4bB1bE9b@1bE@b<1bE7bB1bE3bB1bEeIc71bEgk5bF1bEGb<1bEsR:g2d11bECb<1bEEb<1bEbHW1bEcQbP1
  bEsW<gx1d71bE5bB1bESb61bE=b@1bEUb81bE5bB1bEsX2gxId?1bEsZ6gx9d91bEAb<1bEbLW1bEt0AgwPd31bE7b@1bEUb61bE5bB1bE=b@1bEEb<1
  bE?b@1bEUb81bE1St7b1hs2pjK14C4OcR1813b:c<5:36Hb524Kb33>3426Gpp>2pqF;W1ppJ141pqJ123J12361276123>123612Sb;1<1214b6c712
  1X127bE121212tAMhcNof5127>12Gb3127>127>127>12Gb3128@7>127>12bLms1;bk55bkB9mvQ7mvL1R8mxS7my11<?3tDbDhfGof512121212121
  21212121212121212121R1212121212121212121212121212121c<121212121212121212121212121212321ms?193mvU5mx46mu21ms;1A3mwF5
  mxHVmu61mrR1:3mx;5myYblL1bkFcv;blM6bkGcv;1bG24dIgD2WARblN1bkIcv;ccZ3ccGef18@36cg01cg=emBcgI1cg>emBcoX1cp:fe<cpE1cp7
  fe<cpF1cp;fe<crW2cs8fk812csE2cqXfhQb=cBcvC1cv5fq6cxY1cy6fw4cyA3cxWfvQ7>48cyB1cy4fw4daT2db5gc212dbB1db7gc2de42deDgiV3
  6de91deFgiVdeI1deHgiVds>1ds6hk:gfZ;geVmjO2424242448YbW24341226ld>b5lbGwd124242424242424242424243624247>36363636HcC:
  e2>L24242424242424242424243624247>36363636HcC3dA1212124Fld?:lcAweN36363636bYdW36363636cklM3ckkXeuvS24?Dcko92cko@evcV
  12claL1claYewbOclb:1claZewbOclj;1cljGewsXcljE1cljFewsXcljH1cljIewsXclp82clpCexeR12cmk21cmk:eyu>"

/-- Ranges of code points as a distance from the range before and a length, with their combining class. -/
def combiningText : String :=
  "rUEf?01fA04f501fA01f105f502eN04f502eN0;f505104f508f?01fI01f?03f503f?02f513f?04f501f?01fA02f501f?01fB02fC01fB02fC01
  fB0=f?gA5f?g71f504f?01f503f?01f701f506f?06f502f?01f502f?01f701f=01f?01:01;01<01=01>01?01@01A01B02C01D01E01F11G11H01I
  11f?01f511BbM8f?01N01O01Pb51K01L01M01N01O01P01Q01R02f?02f505f?01f502f?01f5@1Sc?7f?24f?01f501f?22f?11f502f?01f5S1TN1
  f?01f502f?01f502f?03f501f?02f501f?01f503f?01f501f?01f501f?01f501f?01f502f?dO7f?01f501f?91f5H4f?19f?13f?15f?b03f5bA1
  f?03f504f?Z5f?05f50>f?11f502f?01f502f?01f503f?03f501K01L01M03f?01f502f?02f505f?bA17@1931f?01f502f?cA17@19b51f?bB17@1
  9cH17@19cH17@19cY19cH17@1971bY01c5c?17@19cG29@19cV19cG2cA019=4cEcF2cP019=4cTbQ2f5K1f511f511f1b<1d001d111d354d121d112
  f?01912f?bC1f5cJ17129bW1f5qO3f?w229N19dL19:1f?eO1f=d>1f701f?01f5f41f?01f5bL19D8f?21f5b55f?06f502f?01f512f502f?02f505
  f?01f504f?c?17?19V1f?01f507f?b;29b?17;29bH17dG3f?11105f502f?04f501f?17141f561f?32f?eJ2f?01f507f?01f502f?01fC01eZ01f5
  01eN0Uf?01fA02f=01f501f301f?01fB01f501f?01f5qP2f?02104f?03102f?41f?32101f?01f501f?02104f501f?ctA3f?d<19c:Pf?mV1f301
  f=01fA01f702f9cC28bazE1f?4:f?P2f?bU2f?gB19U19dF19KBf?b>3f5U19c917<19fH1f?12f?01f522f?52f?11f?b919fO19sdC1JrV7f?07f50
  2f?wK1f5f;1f5dD5f?bn51f511f?X1f?01101f5419dT1f?01f5n>4f?j02f?dH2f503f?01f501f?04f5b61f?01f501f?01f5eD19Y19>19b>19017
  bJ3f?b529bC17bQ19917cD19017e617019bU27@19H7f?35f?eQ19317G1f?c=19017fT19017cX19cP19017cM19g;19017g029417dK19bX19B19bV
  19jR19g017129bV19rsD51b@7f?bc526roD11etM2f103131f;05f188f525f?02f5N4f?dC3f?ddP7f?1Af?27f?12f?15f?g37f?iO1f?bB4f?biZ7
  f5cG6f?017"

/-- Code points of which each is moved on from the one before. -/
def pointsFrom (last : Nat) : List Nat → List Nat
  | [] => []
  | shift :: rest => moved shift last :: pointsFrom (moved shift last) rest

structure Decomposition where
  first : Nat
  count : Nat
  length : Nat
  points : List Nat

def Decomposition.nth (d : Decomposition) (i : Nat) : List Nat :=
  if d.length == 0 then d.points.map (· + i) else (d.points.drop (i * d.length)).take d.length

def decompositionsOf (base : Nat) : Nat → List Nat → List Decomposition
  | fuel + 1, gap :: count :: length :: rest =>
    let size := if length == 0 then 1 else count * length
    ⟨base + gap, count, length, pointsFrom 0 (rest.take size)⟩ ::
      decompositionsOf (base + gap) fuel (rest.drop size)
  | _, _ => []

def decompositions : List Decomposition := decompositionsOf 0 8192 (numbers decompositionText)

/-- The pairs with a second code point, with what they compose to. -/
def pairsOf (second base last : Nat) : Nat → List Nat → List (Nat × Nat × Nat)
  | count + 1, gap :: shift :: rest =>
    (moved shift last, second, base + gap) :: pairsOf second (base + gap) (moved shift last) count rest
  | _, _ => []

def compositionsOf : Nat → List Nat → List (Nat × Nat × Nat)
  | fuel + 1, second :: count :: rest =>
    pairsOf second 0 0 count rest ++ compositionsOf fuel (rest.drop (2 * count))
  | _, _ => []

def compositions : List (Nat × Nat × Nat) := compositionsOf 256 (numbers compositionText)

def classesOf (base : Nat) : List Nat → List (Nat × Nat × Nat)
  | gap :: length :: cls :: rest =>
    (base + gap, base + gap + length - 1, cls) :: classesOf (base + gap + length) rest
  | _ => []

def combiningClasses : List (Nat × Nat × Nat) := classesOf 0 (numbers combiningText)

/-- The decomposition of a code point that is no syllable of Hangul; a composed one is taken apart at most so often. -/
def decomposeUpTo : Nat → Nat → List Nat
  | 0, n => [n]
  | depth + 1, n =>
    match compositions.find? (·.2.2 == n) with
    | some (a, b, _) => decomposeUpTo depth a ++ decomposeUpTo depth b
    | none =>
      match decompositions.find? (fun d => d.first ≤ n && n < d.first + d.count) with
      | some d => d.nth (n - d.first)
      | none => [n]

/-- The full compatibility decomposition of one code point; syllables of Hangul by their formula. -/
def decompose (n : Nat) : List Nat :=
  if 0xac00 ≤ n && n ≤ 0xd7a3 then
    let i := n - 0xac00
    let tail := i % 28
    [0x1100 + i / 588, 0x1161 + i % 588 / 28] ++ (if tail == 0 then [] else [0x11a7 + tail])
  else decomposeUpTo 8 n

def combiningClass (n : Nat) : Nat :=
  if n < 768 then 0
  else match combiningClasses.find? (fun r => r.1 ≤ n && n ≤ r.2.1) with
    | some r => r.2.2
    | none => 0

/-- Puts a mark into marks in reverse order, before those of a greater class. -/
def insertMark (n : Nat) : List Nat → List Nat
  | [] => [n]
  | m :: rest =>
    if combiningClass n != 0 && combiningClass n < combiningClass m then m :: insertMark n rest
    else n :: m :: rest

/-- Canonical order: the marks after each starter by class, otherwise as written. -/
def canonicalOrder (ns : List Nat) : List Nat := (ns.foldl (fun acc n => insertMark n acc) []).reverse

def compose? (a b : Nat) : Option Nat :=
  if 0x1100 ≤ a && a ≤ 0x1112 && 0x1161 ≤ b && b ≤ 0x1175 then
    some (0xac00 + ((a - 0x1100) * 21 + (b - 0x1161)) * 28)
  else if 0xac00 ≤ a && a ≤ 0xd7a3 && (a - 0xac00) % 28 == 0 && 0x11a8 ≤ b && b ≤ 0x11c2 then
    some (a + (b - 0x11a7))
  else (compositions.find? (fun t => t.1 == a && t.2.1 == b)).map (·.2.2)

/-- Composes after `starter`: `kept` are the marks since then that stayed, in reverse. -/
def composeFrom (starter : Nat) (kept : List Nat) : List Nat → List Nat
  | [] => starter :: kept.reverse
  | n :: rest =>
    let cls := combiningClass n
    let blocked := match kept with
      | [] => false
      | m :: _ => combiningClass m == 0 || cls ≤ combiningClass m
    match if blocked then none else compose? starter n with
    | some c => composeFrom c kept rest
    | none =>
      if cls == 0 then starter :: kept.reverse ++ composeFrom n [] rest
      else composeFrom starter (n :: kept) rest

def composePoints : List Nat → List Nat
  | [] => []
  | n :: rest => if combiningClass n == 0 then composeFrom n [] rest else n :: composePoints rest

def identForm (s : String) : String :=
  if s.toList.all (fun c => c.toNat < 128) then s
  else
    let points := s.toList.flatMap fun c => decompose c.toNat
    String.ofList ((composePoints (canonicalOrder points)).map Char.ofNat)

end CodeMigration.Text
