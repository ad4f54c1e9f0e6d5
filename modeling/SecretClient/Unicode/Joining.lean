import SecretClient.Unicode.Table

/-!
# Joining types

How a character joins its neighbours in cursive scripts.
-/

namespace SecretClient.Unicode

/-- The joining types that bear on whether an invisible joiner may stand at a place. -/
inductive Joining where
  | left
  | right
  | dual
  | transparent
  | none
deriving DecidableEq, Repr

/-- The ranges of the characters with a joining type, numbered in the order of the type. -/
def joiningRanges : RangeMap := .ofLines
  [0x1812d000484536f048214060482082c04020004020104020104020004490a04020004040003020302010003010002,
   0x1010003010002010403010302010c030206030100020101030114040f0103010004010202020202010f0301110201,
   0x125030100020101030108020100030100020100030100020101030101020200020106040305040301040203040101,
   0x1020b0203030003100004010002010004010203010402010303010002010803010002010003010002010003010002,
   0x1010103010002011a04030002010a03010202010e0301010201030301000201000301010201020301010201050327,
   0x10a041a20030108040a00041903040208040202040204041300020104030101020100030100020109030100020100,
   0x103010202010204050003020303020002010003010102061202040003030403010002010003080804010903010202,
   0x1020002010103010102010503010002010e03021704021f043800040200040507040500040406040b01041e00043b,
   0x100040503040900041501041b00040301043a00040501040501040302040400041f01040400040c01043a00040504,
   0x1040201040500041501041705040200043b00040300040203040900040801040c01041f00043e00040d0004330004,
   0x10400043800040202040602040203040801040c01041e00043b00040300040700040601041501041d01043a010405,
   0x103040900041501041e00044900040802040200045b00040306040d07046300040308040c06044a01041c00040200,
   0x104020004380d04020404020104060a040223040a00046703040205040201040301041a01040502041103040e0004,
   0x103010407000410000485400204873302041e01041f01041f0104410104020604090004030a040a00042a00030402,
   0x1040200041158030d01040121030100040100037602040501040a0004070204815c01040300043b00040206040200,
   0x104020004030704070904030004312d04030b041503043100040204040200040600042908040d0104210304030104,
   0x10202043900040201040400040202043b070403010481190204020c0402060405000407000404010481473f04840c,
   0x100040301041b0404320404060504612004977f0204810e0004611f04842b03046c010481eb550304020904210104,
   0x1510104821100040400040500041a01040600041431030100015201041b11040e00042707041a0a042f0204310004,
   0x10303040301042800044405040301040301040d00040900043000043400040202040301040601040200042b010409,
   0x10004816f0004030004050004819e31000485620f04110f0481500004817a02048402000481630004811604048d07,
   0x102040201040603042902040500048101040301000202000202010203000101040201030301000101040301000201,
   0x102030100020300020101040503030100028111000301000201000301020201020301000201010301000201000301,
   0x1010201000301000218030201010382520001012003010002010003010304420404823e0104160002010103020103,
   0x1330504310203010002011003020a040102030100021c0303010102010b030103042b000302010301020202000301,
   0x10102010103010002010103020003010102010003050002010003010001360004370e042a00040301040b02043203,
   0x1040301040800043e02042504040207043f00040d01043508040b0304030004600204030004020104070004030004,
   0x1811e00040407041601043a01040400042606040404044705040e00040200040200040f0104560704030204020004,
   0x1180004550504020004050104020104816f03040701040201041c01045607040300040201046b0004020004030504,
   0x102000466000402000403030402040482040804020104820101040200040500048111030403010405000421090429,
   0x105040303040900040a05040302042f0c0402010481470004020204020004814a0604020504020004531504030604,
   0x10201040201047b0504040004020104020604020004490104040004020004825c01040c0104350404060004020004,
   0x1180004a9561004070e04d9490b04040204934104043c0604881900044003045200048199390104020304a45d2d04,
   0x1031604842102040a0f040306041f0304811502048f3c36040531040900040f0004170404020e048a510604021004,
   0x103060402010402040465000481210604827800043e0304837d0304817f010481740004030004080104060004835b,
   0x106042a4303010704b0ad3600041f5f048101816f04]

/-- The joining type of a character. -/
def joining (c : Char) : Joining :=
  match if c.toNat < 0x80 then Option.none else joiningRanges.get? c.toNat with
  | some 1 => .left
  | some 2 => .right
  | some 3 => .dual
  | some 4 => .transparent
  | _ => .none

end SecretClient.Unicode
