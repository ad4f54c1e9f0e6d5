import SecretClient.Unicode.Table

/-!
# Direction

The classes of the bidirectional algorithm, as far as domain names tell them apart.
-/

namespace SecretClient.Unicode

/-- The direction of a character. -/
inductive Direction where
  | leftToRight
  | rightToLeft
  | arabicNumber
  | europeanNumber
  /-- A separator of numbers. -/
  | separator
  /-- A sign that goes with a number. -/
  | terminator
  | neutral
  /-- A character without effect on its neighbours. -/
  | boundary
  /-- A mark that takes the direction of the character before it. -/
  | mark
  /-- A class that no label with right-to-left characters holds. -/
  | other
deriving DecidableEq, Repr

/-- The ranges from U+0080 on of the characters that do not run from left to right, numbered in the
order of the type. -/
def directionRanges : RangeMap := .ofLines
  [0x181200004010006010305010306020106020106010105010103010006020206010003020406180006200006834201,
   0x106080d06030d06060806021006014e08021f080501060900060601060200066f0006810d06088201000603010601,
   0x10005022c08010001010008010001010108010001010108010001010008091a010505011201060100010101050100,
   0x101010004010001010106010a08010001022d01011408010902010005010102010201010008016401010608020006,
   0x1010508010101010108010006010308010101010903011301030001010008011d01011a08035801010a080100010f,
   0x12a01010808010101010306010001030008011701010308010001010808010001010208010001010408030e010218,
   0x101010208030001020a01061f01080808012901011708021f083800080200080507080500080406080b01081e0008,
   0x13b00080503080900081501080f01050800050300080301083a00080501080501080302080400081f01080400080c,
   0x101083a00080504080201080500081501080e00050905080200083b00080300080203080900080801080c01081f00,
   0x1083e00080d00082605060100050100060600080400083800080202080602080203080801080c0108150606030008,
   0x13b00081001081501081d01083a01080503080900081501081e00084900080802080200085b000803060805000508,
   0x107086300080308080c06084a01081c0008020008020008010306340d08020408020108060a080223080a00086703,
   0x1080205080201080301081a01080502081103080e000803010807000810000885400208310906670006851b010676,
   0x102081e01081f01081f0108440608090008030a08080005020008130906070a067b01082300087702080501080a00,
   0x108070208050006040106811921061801080300083b0008020608020008020008030708070908030008312d08030b,
   0x1081503083100080204080200080600082908080d01082103080301080202083900080201080400080202083b0708,
   0x103010881190208020c0802060805000807000804010881473f08833e00060202060c02060e02060e02060e010602,
   0x10a09020107031306040006080004010405010e060100040119060100091100030405030101040102060209030101,
   0x1040102061221050f20081001060203060201060b00060202060605060200060200060200060500050c0106050406,
   0x1060306030f062a02060581010601000401000501822106461906028110061a0a0616270663834106028252068201,
   0x1847306031f060268068166050605020808060681000008611f08015d062319060258060d8155062b000901030604,
   0x118060a03080300060601060602065a01080101060400065b0006814523063a0106320f061d0206330e060d0306,
   0x181280306640106200006b3413f0681ad113606824702066003080100060109080101061f01085101080f21066700,
   0x1067a00080400080500081a01080203060100080c01053b03064d01081b11080e00082707081a0a082f0208310008,
   0x10303080301082800084405080301080301080d00080900083000083400080202080301080601080200082b010809,
   0x100087401067a0008030008050008819e300001010008010901010004010c01020401020001020101020101028377,
   0x101011106017e01010006210c01010206110106020506080f08021e06010004010006030006010004010806010005,
   0x101010601010401020602000601010501000605040102810601050106010205010406010404010903010004010506,
   0x11b05061b0a067b0105010206010105020606821300063f4c06040c060400065d000881630008011a037b04088906,
   0x10501030001022b01020101040001031601024701090801311201020101062001040006011901061a012737010513,
   0x101032e01010208020108060308010301020201021c01030208050008010801080801083f01212401010108050b01,
   0x10a3501040606011501031a010619010803010d06015148013832010e320108290101030809090207250104040801,
   0x1170109010181511e02022901020108010001030101110501090801220508012701091501010a0801080117110101,
   0x10308010301271b011516010b0008370e080c13060b00080301080b02083203080301080800083e02082504080207,
   0x1083f00080d01083508080b0308030008600208030008020108070008030008811e00080407081601083a01080400,
   0x1082606080404084705080e00080200080200080f0108560708030208020008180008550508020008050108020108,
   0x1816f03080701080201081c0108560708030008020108200c063f0008020008030508020008660208030308020408,
   0x18204080802010882010108020008050008811103080301080500082105080301082905080303080900080a050803,
   0x102082f0c0802010881470008020208020008814a06080205085515080306080201080201087b0508040008020108,
   0x1020608020008490108040008020008825c01080c01083504080600080200081800087b0706010305011006a84f00,
   0x108070e08d9490b08040208934104083c0608881900084003085000060200088199390108a4622d08031608842102,
   0x1081207080306081f03083c0106164106010208010006813b5606870500063a00063a00063a00063a00060b3103,
   0x1840136080531080900080f0008170408020e088a5106080210080306080201080204086500088121060882780008,
   0x13e0308100005836d0308817f010881740008030008080108060008820b8144010308010106082a43010106080100,
   0x101050901050101861243014d3c0181430301021a0102010102000103000102090102030102000102000107000105,
   0x100010200010200010202010201010200010300010200010200010200010200010201010200010303010206010203,
   0x101020301020001020901021001060201020401021001350106820f2b060563060d0e06030e06020e060224060c09,
   0x1030104062000063b05063e000681330506811b875706051006040c06047606055e06070b06050006100b06053706,
   0x1090906072706091d060301064f8253060d0d06030c06040806082d06020606090d06050806080806088112060236,
   0x106260903]

/-- The direction of an ASCII character. -/
def asciiDirection (n : Nat) : Direction :=
  if 0x30 ≤ n && n ≤ 0x39 then .europeanNumber
  else if (0x41 ≤ n && n ≤ 0x5A) || (0x61 ≤ n && n ≤ 0x7A) then .leftToRight
  else if n == 0x2B || n == 0x2D || n == 0x2C || n == 0x2E || n == 0x2F || n == 0x3A then .separator
  else if n == 0x23 || n == 0x24 || n == 0x25 then .terminator
  else if n ≤ 8 || (0x0E ≤ n && n ≤ 0x1B) || n == 0x7F then .boundary
  else if n ≤ 0x20 then .other
  else .neutral

/-- The direction of a character. -/
def direction (c : Char) : Direction :=
  if c.toNat < 0x80 then asciiDirection c.toNat
  else match directionRanges.get? c.toNat with
    | some 1 => .rightToLeft
    | some 2 => .arabicNumber
    | some 3 => .europeanNumber
    | some 4 => .separator
    | some 5 => .terminator
    | some 6 => .neutral
    | some 7 => .boundary
    | some 8 => .mark
    | some _ => .other
    | none => .leftToRight

end SecretClient.Unicode
