import SecretClient.Unicode.Table

/-!
# Characters without a form of their own

The characters that a quoted text spells by number: controls, format characters, separators other
than the space, private and unassigned code points, and those that extend the character before
them. The table lists those from U+0080 on.
-/

namespace SecretClient.Unicode

/-- The ranges from U+0080 on. -/
def hiddenRanges : Ranges := .ofLines
  [0x18100200d0084536f0901070308000200150081610681270027013301042d02000201020102081c0307100b0a0200,
   0x12f1411006607020503010203210102001f1c5a0a020d2c080802190302080202020610001a0402000c04210f2b38,
   0x1380002000507050004060b011e0003000901030117000800020205020200030503010300020c0300040319040200,
   0x107030301170008000300030003030417050002060b010400020b02000a0004001700080003000602050702000302,
   0x1020e03030d0602070300090103011700080003000602020102050301030e03000403130a02000702040005020300,
   0x102000302030204020d0402000302040004020214160504000900040018001102020205120400030103030b060b00,
   0x10c00040018000b0006020300030003010300030f040003030b00040d0c0004002a01020003040400040003030400,
   0x10b031b010300130219000a0002010808030508060b01040b3100030a09070e24030002000600190002000b000308,
   0x10201060002080b01051f19011c00020002000f002511020402010630090007000e242e030205020103011a010502,
   0x111030e00030107001000290002040201827a0005010800020005012a0005012200050108000200050110003a0005,
   0x10144041e021b05570107018501001d025a061302020814010408130d0e00040e350102060900030a0a020b050b05,
   0x10c040b055a0606012300020447092003050104030300070602022b01060a2d031b050c023a010302390002080200,
   0x10307070c0b050b050f553106020006000b001e080d01210303010202390002010400020203073107030410023f04,
   0x12c010c0a020c0206050007000401020481413f82170107012701070109000200020002002001360010000f010700,
   0x1140104000a101907301003011c000e02233d810d03851b150c148e1501827a0203042e00020402013906030e1808,
   0x1080008000800080008000800080008205f211b005a0b8157190d042a051100570366042c005f005709300081e46e,
   0x1023808825d1330030209210151010707815e131200040005001a0106030b05390745090d170e0027071a0a030a1f,
   0x10531000303030111000c0308001a002a050301030a0400090002010b012100340002020301060102000217120109,
   0x10a070107010708080008003d037600030005020b05d7250b180332c203826f016b25080b06040200190006000200,
   0x103000300850b1f110f0b152400140005030600810803811e01200207010701070104020800080c03010d001b0014,
   0x100030010010f217c0404032e0259000e02022e2e81021e02320f1c0325081f0427091f0026030f29811f010b0525,
   0x10325032907350a0d001000080003000c00100008000302350b8238081709091707002b000a44070102002d000302,
   0x10201180049070a2f1400030422021c041c2539031501300e050004001e090a060a06411f26050d0837021e011c04,
   0x11b06050b084f4a36340c34062b0b0b052707190703814f20002b020201030f07070a262907170a0a15130305251d,
   0x11318080200370e08031f000301020b320303010300050d1a060b082504020813072400040a35080b030300110015,
   0x10a13001d02030002010700033e08000200050010000c053000040c0b070300090103011700080003000602020002,
   0x100050103010401020b081b0b00020102002700050602010200050003000200020004000326390703020200160002,
   0x100041d31000305020003000201020105070b812530000305050102011c23340703000201050a0b050e122c000200,
   0x10305020003050b05151b1c0403030208188138300802010263540b09010201090003001900060003030200050004,
   0x1080b4509012b070500051a0209290503030908020503022f0c02010a0c4a060b56020202000257230d0b050a0027,
   0x10d020007091e02211802060201024a08000300271402080b050700030026030300020002060b052d030b81751401,
   0x1050810002507030002001855020e330c871c657000060a8145944b640c88311007189f1c048448b5381f0b04020b,
   0x18d45843a0620000b0352000b051f060209310610090b000800160414832f3b81455c041a011a2b4c04390a0e3f05,
   0x10b0808b95728216074c37c05000800030082240e021c0401020d0507830d92036c040e020a060b010201029e5f,
   0x1817e02833505180e125e753b81770928013d000202051403061f033e1443020279150b150b58081a810656004800,
   0x103010201030105000d000200080042000501090008001d000500060002020800825501822501843336053109000f,
   0x10008887320050782043f81112e0908010b0303823f1f112d030b0402834f1d030b81551f010c0302813f20000400,
   0x103000801060803815f08000500030010008146010a2f450602030b03038610454b3e814105001c00030002010200,
   0x10b000500020002050203020002000200040003000201020002000200020002000300020105000800050005000200,
   0x10b00120404000600123303820d2d03650b1001100010002609812f371e0c2d030a06030d078119875a0212020e02,
   0x1815b050d03020e0d0339070b0529071f010d03030d0a268259070f010e020c023a00020311010d030b0681140068,
   0x1880482cd611fa21f01ad0f01ba320e846f9321841f8b61a64c04c22bb79705]

/-- Whether a character has no form of its own. -/
def isHidden (c : Char) : Bool :=
  if c.toNat < 0x80 then c.toNat < 0x20 || c.toNat == 0x7F else hiddenRanges.has c.toNat

end SecretClient.Unicode
