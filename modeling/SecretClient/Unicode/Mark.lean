import SecretClient.Unicode.Table

/-!
# Marks

The characters of the general category `Mark`, with which no label of a domain name begins.
-/

namespace SecretClient.Unicode

/-- The ranges of the general category `Mark`. -/
def markRanges : Ranges := .ofLines
  [0x186006f82140682082c0200020102010200490a31141100660603050301020324001f1a5c0a3b080a001903020802,
   0x10202042c023c082b1702203702021102060b011e0239000206030103020a000b011b000302390002040501030204,
   0x1001f0104000c023900020702020202150117050202390002060301030208020b011f003c04040202030a00290438,
   0x10002060202020308010c011e02390002060202020308010c0110000d0338010206020202030a000b011e02470005,
   0x1050200020713013e0003060d07630003080c064a011c0002000200050132130201060a02230a0065131803050202,
   0x102030604030e0b02000b038540028733031d021e011f01411f0a002e02020076012300770b050b815c043a09021c,
   0x10300312d030b1504301027080d021f0c390d3113811902021405000700030281473f855120977f02810e00611f,
   0x1842b056a0181eb55030209210151018211000400050018040500540133111b110e0027071a0c2d03300d2500440d,
   0x10d0009012e02330002020301060102002a040601816d070201819e310085620f110f874e008163008116048d0702,
   0x10201060329020500812601843e034204823e014e05470a32037b02360e2a0003010b032e0a08003e02250d11012d,
   0x1000d02310d090302015d0b07000300811e0b160338010206030103020a000b010306040447050e00020002000f01,
   0x1531118005213816c0603081c0153106b0c660e82010e8176050201030302000201810e06030604001d0929060203,
   0x109000a0a2f0f8147000202020081490702075315020d7b050400020102060200430402010204825c030a01020031,
   0x10604041800a96600070ed9490b04029341043c068819000236080352000c0181992c01a4622d0316841f04040509,
   0x10703061f038115028f3c36053109000f001704020e8a5106021003060201020465008121068278003e03837d03,
   0x1817f01817400030008010600835b066e06b0af36816f]

/-- Whether a character is a mark. -/
def isMark (c : Char) : Bool := 0x80 ≤ c.toNat && markRanges.has c.toNat

end SecretClient.Unicode
