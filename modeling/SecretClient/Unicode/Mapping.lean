import SecretClient.Unicode.Table

/-!
# The character mapping of domain names

What becomes of a character of a domain name before the name is compared or encoded: it is kept,
left out, replaced by other characters, or it is not allowed at all. ASCII letters become lower
case; the other ASCII characters are kept here, and which of them a host may hold is decided by its
reader.
-/

namespace SecretClient.Unicode

/-- The ranges of the characters that are not allowed. -/
def disallowedRanges : Ranges := .ofLines
  [0x181001f8559010703080002001500830e0027013301040038071c030710170081410031013c01660d3c0132011000,
   0x11d0102000c0421064c008122000901030117000800020205010a01030105070203030006011a0104000703030117,
   0x10008000300030003010200060303010402020605000206120904000a00040017000800030006010b000400040102,
   0x10e05010d06080004000901030117000800030006010a010301040604030300060113090300070204000502030002,
   0x1000302030204020d030602040005010205020d16040e000400180011010a000400050603000400030105010b0617,
   0x100040018000b0006010a00040005060304040005010b00040b0e00040034000400070311011b000400130219000a,
   0x1000201080202030700020009050b01040b3b031e240300020006001900020018010600020008000b01051f490025,
   0x1032800250010000e2481470002040201827a0005010800020005012a0005012200050108000200050110003a0005,
   0x101440121021b05570107018501001d025a0617081908150b0e000400030b5f010b050b051b055a062c0447092000,
   0x10d030d0302022b01060a2d031b050c023f0142001e010c050b050f012f010d134e008127073d0210023f042c010c,
   0x1072c0484170107012701070109000200020002002001360010000f010700140104000a000f011502020637040901,
   0x11c000e02230d220e810d03851b150c1429138d5901827f042e00020402013906030d190808000800080008000800,
   0x10800080008007f211b005a0b8157294100570168042c005f00570930008323000500110081e135023808825d13,
   0x1813907815e133d020b05390747070d05750a1f024f000c03220038080f010b0168171d0907010701070808000800,
   0x13d037f010b05d7250b180332c203826f016b25080b06041b000600020003000300850b1f23000706110022011400,
   0x1050306008108010200813f020701070107010402080008100d001b001400030010010f217c0404032e0259000e02,
   0x1022e2f81011e02320e1d0325081f042c041f0026030f29811f010b05250325032907350a0d001000080003000c00,
   0x1100008000302350b8238081709091707002b000a44070102002d0003020201180049070a2f1400030422021c041c,
   0x1253903150133000304090004001e0104030b060a06411f28030d0837021e011c041b06050b084f4a36340c34062f,
   0x1070b0527021e0703814f20002b000401030f07070a202f072b151b251d1318084f0325083f00060c1a060b053600,
   0x1130728086100150a1300303d08000200050010000c053c040b0505000901030117000800030006000b0103010401,
   0x10205020408010802060a0b000201020027000b000201020005000b000307031c5d00061d49070b81253701272146,
   0x10a0b050e123b050b05151b1c0110031881383d63540b09010201090003001f0003010d080b4509012f010c1a4907,
   0x1540c4a060b550957230d0b050a002e000f091e02210117000f48080003002d02020003000a070b05070003002600,
   0x1030007060b052d030b81751a0612002a021e54020e330c871c657000060a8145944b640c88310f17099f1c048448,
   0x1b5383b8d45843a0620000b0352000b051f01070947090b000800160414832f3b81455c041a011a2b4c033a06123f,
   0x1060a0808b95728216074c37c05000800030082240e021c0401020d0507830d92036c040e020a060b01099e5b817e,
   0x102833505180e120e2f011808753b81770928018143144779150b150b58081a81065600480003010201030105000d,
   0x1000200080042000501090008001d000500060002020800825501822501853f0e060010884f200507815408001201,
   0x10800030006043f20026f2e020f010b0303823f20103b0402834f2b81552c0302813f2000170703815f0800050003,
   0x100100081460111284d030b03038610454b3e814105001c000300020102000b000500020002050203020002000200,
   0x10400030002010200020002000200020003000201050008000500050002000b00120404000600123303820d2d0365,
   0x10b100110001000260a812e371e0c2d030a06030d078119875a0212020e02815b050d03020e0d0339070b0529071f,
   0x1010d03030d0a268259070f010e020c023a00020311010d030b0681140068880482cd611fa21f01ad0f01ba320e,
   0x1846f9321841f8b61a64c04c22bab990581718bfc0f]

/-- The ranges of the characters that are left out. -/
def ignoredRanges : Ranges := .ofLines
  [0x1812d008522009c10018c540156048f7c0055040605a1750083991c0f81700081210082fa0003a95007b0df06816f]

/-- A run of characters of which every `step`-th is replaced by the character as far behind `target`
as it is behind `first`. -/
structure Shift where
  first : Nat
  last : Nat
  step : Nat
  target : Nat

/-- Reads shifts from the gap since the last one, the length, the step and the target. -/
def shiftRows (start : Nat) : List Nat → List Shift
  | gap :: more :: step :: target :: rest =>
    ⟨start + gap, start + gap + more, step, target⟩ :: shiftRows (start + gap + more) rest
  | _ => []

/-- The characters that are replaced by one character. -/
def shifts : Array Shift := (shiftRows 0 (numbers
  [0x181200001200a00016108010132020001873c040001310100016f06160181600206018178222e0282010602028235,
   0x1030402823a0406028242032c02824b020001817f010402827a020001730200018453010202830302000184540100,
   0x10183080201018456010001830c030001835d0100018459010001845b010001831202000184600100018463020001,
   0x1846901000184680100018319040001846f01000184720200018475010402832102000185000100018328020001,
   0x18503030001832d02000185080100018330020101850a010202833402000185120100018339040001833d110e02,
   0x1834e031002835f06000183750200018315010001833f0126028379020001831e0210028423080001d865010001,
   0x1843c020001831a010001d866030001844202000183000100018509010001850c0108028447620001680100018466,
   0x10100016a010001720100018479010001847b0100018501010001770100017928000184630100016c010001730100,
   0x1017801000185155c01018600020001861302000187392b02028671020001853902000186770800013b0100018773,
   0x1070001872c0100018137010201872d020001874c020101874d021001873102080187432400018757010001873201,
   0x1000187380100018745010001874d010001874b010001874601000187400216028759020001873a01000187410100,
   0x10187430200018738010001873502000187780200018743010001877b030201867b010f018850011f018830312002,
   0x188610a3402890b020001894f010c028942035e0289510325018a61933600019e0b83142501da00020001da270600,
   0x101da2d2f0001a15c857c0501a7709103000188320100018834010001883e01010188410100018842010001884a01,
   0x10001886301000182cc4b010001b90a072a01a150030201a17d6d00016101000181660102026201000165010001,
   0x1835d010701670200016f010001842301000170010001720101017401000177010001610101018450010001ba0201,
   0x1000162010101640100018459010101845b010001670200016b0100016d010001824b0100016f0100018454010101,
   0x1ba160100017001010174010001ba1d010001846f01000176010001ba250102018732010101874601000169010001,
   0x172010101750101018732010001874101010187460e0001883d230001845201000163010001845501000181700100,
   0x101845c01000166010001845f010001846101000184650102018468010001ba7b010001851d010001846d010001,
   0x1bb05010001851f01000184710100018470010301847201000184780101018502010001832b0101018509010001,
   0x1ba1c010101850b0100017a0102018510010001873841811402bc01070001bc61030001815f025e02bd210a0701,
   0x1be00090501be100b0701be20090701be30090501be400c0602be51090701be60020001872c020001872d020001,
   0x1872e020001872f020001874c020001874d020001874e3b0101bf30010001be70010001872c03000187390a0001,
   0x1be72010001872d010001be74010001872e0800018710050101bf50010001be76010001872f0800018730050101,
   0x1bf60010001be7a010001874d010001bf6503000160090001be78010001874c010001be7c010001874e0500012001,
   0x1000120010001200100012001000120010001200100012001000120010001200100012001000120070001c0101e00,
   0x10120300001201100013001000169030501340100012b010001c4120100013d010101280100016e01090130010001,
   0x12b010001c4120100013d0101012802000161010001650100016f010001780100018459010001680103016b010001,
   0x1700101017366000163050001845b0301016701000168010001680100016801000182270100016901000169010001,
   0x16c0102026c0402017001000172010001720700017a02000187490200017a0200016b010001816501010162020001,
   0x16501010165010001c24e0100016d0100016f0103018b5001000169030001874001000187330100018733010001,
   0x18740010001c4110500016401010164010101691700016904000176050001780300016c010101630100016d010001,
   0x16904000176050001780300016c010101630100016d040001c30483260101e00882360801314e1901610119016101,
   0x10001308e162f01d830310001d861020001846b010001ba7d010001847d030402d868020001845101000184710100,
   0x10184500100018452020001d873030001d8760700016a01000176010101843f016202d901090202d96c050001d973,
   0x17d0001da618230000181d74d54000182bf1f0d0001819c00010001819c28010001819c36010001819c3f010001,
   0x1819c59010001819d05010001819d0c010001819d20010001819d3a01000181a23f01000181a26501000181a26b01,
   0x1000181a30201000181a31601000181a32b01000181a36001000181a37501000181a40001000181a51b010001,
   0x181a57901000181a61501000181a61a01000181a63801000181a64101000181a65c01000181a66901000181a70201,
   0x1000181a73601000181a74801000181a76301000181ad5701000181ae1f01000181b16b01000181b202010001,
   0x181b20a01000181b21501000181b22701000181b27301000181b65001000181b70001000181b77801000181b80f01,
   0x1000181b82201000181b83801000181b86e01000181b87101000181bb5b01000181bb6501000181bb71010001,
   0x181bb7e01000181bc7201000181bc7a01000181bc7f01000181bd7401000181bd7e01000181be0b01000181be1301,
   0x1000181be5001000181be6101000181be7301000181bf4301000181c40801000181c43601000181c44b010001,
   0x181ca2f01000181ca3401000181cb0701000181cb1701000181cb2401000181cb3901000181cb6001000181cb6501,
   0x1000181cd7001000181ce0801000181ce2801000181d62001000181d66201000181d67901000181d733010001,
   0x181d74b01000181d75401000181d75b01000181d80f01000181d81401000181d83401000181e06b01000181e42a01,
   0x1000181e43601000181e43b01000181e43f01000181e44701000181e45901000181e45b01000181e52c010001,
   0x181e70401000181e70901000181e95c01000181e96601000181ea1801000181ea1f01000181ea2801000181ea3001,
   0x1000181eb0b01000181eb1201000181ec7601000181ec7d01000181ed2e01000181ed3f01000181ed6e010001,
   0x181ef5b01000181ef6201000181ef7301000181f23a01000181f33801000181f33e01000181f47401000181f54b01,
   0x1000181f57901000181f87301000181f97801000181fe3601000181fe5101000181ff0a01000181ff3d010001,
   0x182800101000182800c01000182801201000182803301000182807f01000182810901000182836301000182836a01,
   0x1000182837301000182837c01000182840c01000182841b01000182841f01000182846e010001828472010001,
   0x1828478010001828c4d010001828c6b01000182904001000182904c01000182906301000182927e01000182930b01,
   0x1000182935201000182940001000182983701000182984601000182985501000182987801000182991d010001,
   0x1829a64010001829a70010001829b33010001829d2b010001829d4a010001829f1b010001829f30010001829f3501,
   0x1000182a11101000182a24901000182a34601000182a34c01000182a35101000182aa7701000182ab00010001,
   0x182ac1c01000182ad3601000182ad3901000182ad6801000182ae5101000182ae5e01000182ae6201000182ae6901,
   0x1000182af4b01000182af6d01000182af7301000182b00101000182b12801000182b15b01000182b15f010001,
   0x182b31601000182b31901000182b32c01000182b52801000182b55801000182b55f01000182b62501000182b62f01,
   0x1000182b63201000182b63c01000182b65a01000182b96501000182bc7501000182bc7f01000182bd25010001,
   0x182bd3b01000182bd4301000182bd4d01000182bd5101000182bd7901000182bd7d01000182be0e01000182be1301,
   0x1000182be2001000182be3b01000182be4a01000182be5201000182bf0d01000182bf1c01000182bf202b00012002,
   0x100012e340001e01202000181a64101010181a64481770101a200010001a32a010001a202010101a32c010201a203,
   0x1010501a330010001a21a010201a206010001a221010901a209011401a261020101a214010101a347010001a34c01,
   0x10001a34e010001a353010001a357010001a359010001a21c010001a35d010001a35f010101a21d010001a2200101,
   0x101a222010001a227010001a229010401a22b010001a232010001a236010001a240010001a247010001a24c010101,
   0x1a371010201a257010101a304010001a308010101a311010001a314010001a31e010001a321040001819c00010001,
   0x1819d0c010001819c0901000181ad5b010001819c0a010001819c2d010001819c0b01000181ea32010001819c5901,
   0x10001819c19010001819c0101000181b22901000181ae30010001819d3a8125000181aa4f01000181bc7c010001,
   0x181cb0701000181f70f190001a200010101a202010201a205010001a209010101a20b010401a20e01000182d80001,
   0x1000182e11801000182e56401000182ee7c01000182f34801000182f81401000183812c010001838a44010001,
   0x1838f10010001839828010001839c7401000183a14001000183a60c01000183aa58030001838d30020001819c0001,
   0x10001819d0c010001819c0901000181ad5b010001819d1401000181a26d010001819c0301000181a26b010001,
   0x1819c5d01000181a64101000181ce0801000181e06b01000181d83401000181ce2801000182a35101000181ae1f01,
   0x1000181cb6501000181d02a01000181ce0901000181f23e01000181a80d01000181e479010001829921010001,
   0x181f25d01000181a53401000181f35801000181ea3701000181b27301000182a06901000181a22a01000181a67001,
   0x1000181d96801000182b005010001819e1101000181a31901000181d663010001819c0a010001819c2d010001,
   0x1819c0b01000181bb6601000181a77301000181a63b01000181b71701000181b66601000181ed63010001819e0101,
   0x1000182994701000181a65401000181b21c200001e122010001e124010001e126010001e128010101e12a010001,
   0x1e12d010001e12f010001e131010001e133010001e135010001e137010001e139010001e13b010001e13d010001,
   0x1e13f010001e141010001e144010001e146010001e148010501e14a010001e152010001e155010001e158010001,
   0x1e15b010401e15e010001e164010001e166010501e168010301e16f81e6422c0282cc41141a0282cd01020001884a,
   0x1010001884c81050c0282ce23043c0282ce3302000182ce6f09020282ce7a020001ba7901080282ce7f050001,
   0x182cf0c020001846503020282cf1104120282cf170200018466010001845c0100018461010001846c010001846a02,
   0x10001851e0100018507010001851d01000182d653010e0282cf3502000182cf140100018502010001bb0e010202,
   0x182cf480200018464010e0282cf4d020001831b1500017301000163010001660100017101000182cf760300018227,
   0x101000182538663000182ce2701000182d637010001846b01000182d6520a0001850d074f01a720819a410001,
   0x182984801000181cd74010001829d4a01000182994801000181dd51010001819c3201000181a76501000182bf1c01,
   0x1000182bf1c01000181b25101000182a35101000181ab0701000181b24801000181c37601000181ec69010001,
   0x181ff05010001828c3f010001828f3a01000182917801000182a10f01000181d40201000181da1b01000181e15901,
   0x1000181e75e01000182883d01000182a26a01000182b371010001819d0201000181a67501000181d604010001,
   0x181e41b010001828c2d01000182bc1e01000181ba5001000181df6b010001828b4d01000182926401000181c54901,
   0x1000182835801000182901f01000181bd4a01000181ce1701000181da6a01000181e57c01000182a14e010001,
   0x1819f0601000181a33701000181a55e01000181c94401000181d55301000181e41001000181ed6701000182800101,
   0x10001828c06010001828c5c010001829b6f01000182ae3201000182b66f01000182bb7a01000181f10c010001,
   0x181f27f01000181fb2001000182874901000182a60401000182bc7f01000182955601000181b15f01000181be0401,
   0x1000181f86001000182807e01000181e46201000181f14a01000182994201000182ad7701000181b158010001,
   0x181b86201000181d41301000181db5a01000181de0f01000181fa2f01000181fc3701000182ac4b01000181a55201,
   0x1000182810b01000181a35c01000181a34c01000181f41c01000181fb3e01000182877101000182ac75010001,
   0x182970001000181c54f01000181d40201000182957e010001819c3901000181b76701000181c01201000181e70701,
   0x1000181ea7001000181a61701000181f17b010001819f3f01000181bf29010001819c0d01000181d94c010001,
   0x181ca7801000181fa2201000181a74301000181b05e01000181ee0101000182884901000182952a01000181d73a01,
   0x10001829f3001000181d90801000181c57e01000182856501000181c72001000181ea65010001819d2e010001,
   0x181a26901000181a34901000181d10101000181f96701000182846f01000182955201000182a34f01000181a57501,
   0x1000181a84201000181b27301000181bd6c01000181cb4501000181df7e01000181f22a01000182ab2d010001,
   0x182b46a01000182bd1701000182bd4e01000181a51b01000181cd4601000181d677010001829e6201000181bc7401,
   0x1000181c31001000181c40001000181c91a01000181de2301000181e24901000181e90901000181f34a010001,
   0x181fb7401000182806f010001829e2601000182896e01000182a02301000182a64a01000181a41701000181a52301,
   0x1000181a93d01000181e14801000182914201000182952a01000181bd4901000181bf7501000181c67b010001,
   0x181d72e01000181f83e01000181e675010001819d6401000181ad7901000181b76701000181bb3a01000181c01c01,
   0x1000181e73201000181e86901000181ff1a01000182804601000182a43401000182ad7601000182ae48010001,
   0x182b018010001819f0b01000181f32e01000182a33401000182ad3801000181c161010001819d0601000181a15a01,
   0x1000181b76e01000181b83f01000181cb1901000181d40201000181e34e01000181ec4201000182897c010001,
   0x182a07c01000182bf0d01000181cd0801000182ac2e01000181a50901000181ce7b01000181cf7301000181da4101,
   0x1000181dd1c01000181e80901000181ea5901000181f06b01000181fa1001000182b05e01000181a26d010001,
   0x181c42e01000182ac7801000181a02b01000181ba1901000181db6a010001829e2a01000181bf0b01000181c24401,
   0x1000181d01701000181e70701000182ad0601000181a42901000181a80f01000181b86501000181cc13010001,
   0x181ce4e01000181d12801000181d96501000181e80601000181eb6201000181fe7901000182914f01000182916101,
   0x1000182a34c01000182ad6201000181a63f01000181dd3a01000181a81d01000181e35001000181e918010001,
   0x1828b7a01000182ad2301000182b85701000182bd1f01000181cf1701000181db4b01000182836801000181f54b01,
   0x1000181f62001000181f91201000181e54001000181e119010001829658010001819d40010001828636010001,
   0x181a43a01000181a40701000181bd2601000181c55301000181f95601000181b70501000181da1e01000181cd3401,
   0x10001829e3b01000182904c01000182ac4d01000182930b01000181bd5301000181a24001000181ab40030001,
   0x181b05a02000181cc7403000181a35e01000181e62a01000181ed4a01000181f23c01000181f25e01000181f26501,
   0x1000181f30f01000182ae5601000181f93e01000181ff3d020001828c1202000182957803000182a038010001,
   0x182a17d04000182b16f01000182b17c01000182b22801000182bb3401000182a15e01000182ad37010001819f2e01,
   0x1000181a16701000181a24d01000181a54901000181a56401000181a65101000181ab1d01000181ac06010001,
   0x181ac6801000181b04001000181b12801000181b86401000181b86e01000181c11401000181c26801000181c30e01,
   0x1000181c37201000181ca4f01000181cb6201000181cd1101000181d10501000181da7701000181dc1a010001,
   0x181de2201000181e26e01000181e42b01000181e82201000181f11101000181f23e01000181f24901000181f24801,
   0x1000181f25001000181f25601000181f25d01010181f30d01000181f44001000181f50101000181f740010001,
   0x181fb7401000181fc0901000181fc4101000181fe7201000182800501000182836d01000182847901000182847901,
   0x10001828857010001829210010001829316010001829601010001829639010001829953010001829a08010001,
   0x1829f3601000182a03801000182ad6301000182af7f01000182b03b01000181c07501000189856e01000182841803,
   0x10001819c2601000181a33501000181a268010001819f0001000181a24501000181a30001000181a547010001,
   0x181a57a01000181ab1d01000181aa5501000181ab1901000181ab6201000181b05a01000181b13301000181b24401,
   0x1000181b25401000181b46201000181b62801000181bd5201000181bd5901000181be6901000181bf2d010001,
   0x181c15801000181c24e01000181c20801000181c30e01000181c26001000181c37201000181c43401000181c74401,
   0x1000181c81c01000181c85201000181ca5601000181cc7401000181ce1701000181ce1b01000181ce56010001,
   0x181d67901000181d73a01000181da4101000181dd5b01000181dd4b01000181de2201000181e01e01000181e26e01,
   0x1000181ef2701000181e43501000181e52f01000181e62a01000181e87101000181ea0601000181ea3b010001,
   0x181ec1d01000181ec1f01000181ed4a01000181ed5b01000181ed7401000181ee4a01000181ee4001000181f14c01,
   0x1000181f53101000181f74001000181f87b01000181fa5b01000181fb7401000181fe3e010001828005010001,
   0x182865201000182876f010001828e7901000182924101000182930601000182931601000182953f01000182957801,
   0x1000182954b01000182960101000182957e01000182956d01000182963901000182970a010001829a08010001,
   0x1829e3801000182a07201000182a31901000182a47601000182ac7c01000182ad6301000182ae5601000182af5b01,
   0x1000182af7f01000182b00b01000182b03b01000182b61201000182bf1c01000188d04a01000188d044010001,
   0x188e755010001f71d01000181801801000181803901000189a44901000189b95001000189fd5301000182be430100,
   0x10182bf0e4700018b620100018b500101018b530102018b5b0100018b680100018b6a0100012b2700018c71010001,
   0x18c710100018c7b0100018c7b0100018c7b0100018c7b0100018c7e0100018c7e0100018c7e0100018c7e010001,
   0x18d000100018d000100018d000100018d000100018c7a0100018c7a0100018c7a0100018c7a0100018c7f010001,
   0x18c7f0100018c7f0100018c7f0100018c790100018c790100018c790100018c790100018d240100018d24010001,
   0x18d240100018d240100018d260100018d260100018d260100018d260100018d040100018d040100018d04010001,
   0x18d040100018d030100018d030100018d030100018d030100018d060100018d060100018d060101018d06010001,
   0x18d070100018d070100018d070100018d0d0100018d0d0100018d0c0100018d0c0100018d0e0100018d0e010001,
   0x18d080100018d080100018d180100018d180100018d110100018d110100018d290100018d290100018d29010001,
   0x18d290100018d2f0100018d2f0100018d2f0100018d2f0100018d330100018d330100018d330100018d33010001,
   0x18d310100018d310100018d310100018d310100018d3a0101018d3a0100018d3b0100018d3b0100018d3b010001,
   0x18d400101018d400100018d410100018d410100018d410100018d3e0100018d3e0100018d3e0100018d3e010001,
   0x18d520101018d520100018d532200018d2d0100018d2d0100018d2d0100018d2d0100018d470100018d47010001,
   0x18d460100018d460100018d480100018d480200018d4b0100018d4b0100018d450100018d450100018d49010001,
   0x18d490100018d500100018d500100018d500100018d500100018c490100018c491300018d4c0100018d4c010001,
   0x18d4c0100018d4c841100012c010001e0010201013a010001210100013f010101e016190001c014010001c0130100,
   0x1015f0100015f010101280100017b0100017d010101e014010101e010010101e00a010101e008010301e00c030001,
   0x15b0100015d0500015f0100015f0100015f0100012c010001e0010300013b0100013a0100013f01000121010001,
   0x1c014010101280100017b0100017d010101e01401000123010001260101012a0100012d0100013c0100013e010001,
   0x13d0200015c01010124010001401501018c210101018c220101018c230101018c240101018c250100018c26010001,
   0x18c260101018c260101018c270100018c280100018c280101018c280101018c290100018c2a0100018c2a010101,
   0x18c2a0100018c2b0100018c2b0101018c2b0100018c2c0100018c2c0101018c2c0100018c2d0100018c2d010101,
   0x18c2d0100018c2e0100018c2e0101018c2e0101018c2f0101018c300101018c310101018c320100018c33010001,
   0x18c330101018c330100018c340100018c340101018c340100018c350100018c350101018c350100018c36010001,
   0x18c360101018c360100018c370100018c370101018c370100018c380100018c380101018c380100018c39010001,
   0x18c390101018c390100018c3a0100018c3a0100018c3a0100018c410100018c410100018c410101018c41010001,
   0x18c420100018c420101018c420100018c430100018c430101018c430100018c440100018c440101018c44010001,
   0x18c450100018c450101018c450100018c460100018c460101018c460100018c470100018c470101018c47010101,
   0x18c480101018c490100018c4a0100018c4a0100018c4a0d1f0121011901610123015b010101d3050100012e010101,
   0x1e00c010001e001010001e17b010001e172010001e121010001e123010001e125010001e127010001e129010001,
   0x1e163010001e165010001e167010001e143010001e17c010001e122010001e124010001e126010001e128010101,
   0x1e12a010001e12d010001e12f010001e131010001e133010001e135010001e137010001e139010001e13b010001,
   0x1e13d010001e13f010001e141010001e144010001e146010001e148010501e14a010001e152010001e155010001,
   0x1e158010001e15b010401e15e010001e164010001e166010501e168010001e16f010001e173010101e119020101,
   0x1a200010001a32a010001a202010101a32c010201a203010501a330010001a21a010201a206010001a221010901,
   0x1a209040501a261030501a267030501a26d030201a2730401018122010001812c02000181260100018125010001,
   0x1c129020001ca02010301c310010001cb20010001cb4b8812270184882881092301848958811d0a01848b17020e01,
   0x1848b23020601848b33020101848b3b836c010185500100018166010001851901000184530200018523010001,
   0x182d666010001852501000185240101018456010001bb110100018458010001845e01000185290100018464010001,
   0x184620100018460010001851b0100018227010001851c01000184670100018504010101852a010001846c010001,
   0x187be0401000182cf0e010001846e01000187be05010001850e01000187be06010001817801010184760100017101,
   0x10001847a01000187be08010101847d01000185000100018528010001852601000182d66701000185270100018508,
   0x1010001d871020001850f01010185210100018518010201834001000187be0a01000187be1e89463201849940811e,
   0x11501849a70963b1f0184b14081ab011f0185dc6041180185dd3b81bc1e190161010901308e071901610119016101,
   0x1190161010601610211016901190161011901610102026101000164030001670301016a0303016e02070173010301,
   0x1610202026601050169020a0170011901610119016101010161020301640307016a02060173021901610101016102,
   0x1030164020401690200016f0406017302190161011901610119016101190161011901610119016101190161011901,
   0x161011901610119016101190161011901610119016101000182310100018437031001873101000187380106018743,
   0x1010001c407011001873101000187430106018743010001c40201000187350100018738010001873a010001874601,
   0x1000187410100018740011001873101000187380106018743010001c4070110018731010001874301060187430100,
   0x101c40201000187350100018738010001873a01000187460100018741010001874001100187310100018738010601,
   0x18743010001c407011001873101000187430106018743010001c40201000187350100018738010001873a010001,
   0x1874601000187410100018740011001873101000187380106018743010001c40701100187310100018743010601,
   0x18743010001c40201000187350100018738010001873a0100018746010001874101000187400110018731010001,
   0x187380106018743010001c407011001873101000187430106018743010001c40201000187350100018738010001,
   0x1873a010001874601000187410100018740010001875d010001875d03090130010901300109013001090130010901,
   0x130903108018830010201883a010a01883e010001884b010101884d01000182cd0901000189590100018856010001,
   0x188580100018969010001892f010001894f0108018830010101883a010101883e01000188410105018843010101,
   0x1884a010001891101000188560100018855010001885f010001892b01000182cc5101000189319113210187d222,
   0x1895f01018c270100018c2c0100018c2f0200018c480100018c320100018c2d0100018c370100018c4a0103018c43,
   0x10100018c330100018c390100018c410100018c350100018c420100018c310100018c340101018c2a0100018c2e01,
   0x100018c300100018c360100018c380100018c3a0100018c6e0100018d3a0100018d210100018c6f0200018c280100,
   0x1018c2c0200018c470300018c2d0200018c4a0103018c430100018c330100018c390100018c410100018c35010001,
   0x18c420200018c340101018c2a0100018c2e0200018c360200018c3a0700018c2c0500018c2d0200018c4a020202,
   0x18c440100018c330100018c390200018c350100018c420200018c340300018c2e0200018c360200018c3a020001,
   0x18d3a0200018c6f0200018c280100018c2c0200018c470300018c2d0100018c370100018c4a0102028c43010001,
   0x18c460100018c330100018c390100018c410100018c350100018c420200018c340101018c2a0100018c2e020001,
   0x18c360100018c380100018c3a0100018c6e0200018d210201018c270100018c2c0100018c2f0101018c47010001,
   0x18c320100018c2d0100018c370100018c4a0202018c440100018c330100018c390100018c410100018c35010001,
   0x18c420100018c310100018c340101018c2a0100018c2e0100018c300100018c360100018c380100018c3a060001,
   0x18c280100018c2c0100018c2f0200018c480100018c320100018c2d0100018c370100018c4a0202018c44010001,
   0x18c330100018c390100018c410100018c350100018c420100018c310100018c340101018c2a0100018c2e010001,
   0x18c300100018c360100018c380100018c3a8470000163010001720419016181390001e1350e000181c44b010001,
   0x181b65701000181a74c010001e147010001819d0c01000181b21a01000182936301000181b229010001819d240100,
   0x10181cc2001000181e22101000181cb1901000181a44d01000181bf0c01000181a30d01000181cb3001000181a41d,
   0x101000181fa4201000181ea1f01000182992901000181b17001000181a83901000181de1401000181c515010001,
   0x181c655010001819c00010001819c0901000182a04a01000181bb66010001819c2d01000181a77301000181c60701,
   0x10001829a7001000181c45301000181f30101000181f47a01000181a80801000181dd0001000181ce09010001,
   0x181ce0801000181ea3301000181a47201000181ab3601000182a24d15000181bf1701000181a76f931f090130,
   0x183f8070001819c3d010001819c38010001819c41010001888222010001819e60010001819f2e010001819f3b0100,
   0x10181a00201000181a07a01000181a11901000181a16701000181a14f010001e91e010001888c3a01000181a24d01,
   0x1000181a25401000181a26401000181a277010001888a1c010001e93901000181a26701000181a30d010001888a4b,
   0x101000181a31701000181a324010001819d4c01000181a32c01000181a3350100018aa35f01000181a375010001,
   0x181a403010001e95f01000181a43b01000181a44601000181a47201000181a477010001ea1501000181a547010001,
   0x181a54901000181a56401000181a57a01010181a60501000181a61701000181a64901000181a65101000181a65a01,
   0x1000181a67301000181a67d01000181a67f01000181a67f01000181a67f01000188942c01000181e070010001,
   0x181a74a01000181a75f01000188966301000181a76b01000181a77101000181a80601000181a91e01000181a83801,
   0x1000181a84801000181a86801000181a92201000181a97601000181aa1001000181aa5301000181aa63010001,
   0x181ab0401000181ab0401000181ab1901000181ab2b01000181ab3301000181ab4201000181ae1601000181ac0601,
   0x1000181ae1701000181ac5101000181ac7401000181a40701000181b16e01000181af4e01000181af74010001,
   0x181b00d01000181af0b01000181b03201000181b03101000181b12c01000188a96401000181b17201000181b17701,
   0x1000181b20601000181b21a01000181b22201000181b26201000188ad2801000188ad6a01000181b36c010001,
   0x181b41b01000181b42701000181b35801000181b466010001ed6e010001ed7c01000181b60801000181b63e010001,
   0x181b63e01000188b34801000181b74301000181b75801000181b76701000181b77301000188b61801000181b77f01,
   0x1000181b80601000181be5301000181b822010001ef0101000181b86001000181b86e01000181b94001000181b90d,
   0x101000188bb6401000181ba4301000188bb6601000181ba6e01000181ba6b01000181ba7c01010181bb61010001,
   0x1f02f01000181bb7d01000181bc2801000181bc3d01000181bc69010001f06201000188c303010001f07c010001,
   0x181bd3001000181bd3301000181bd3601000181bd4a0100018ac71201000181bd7e01000188c63101000188c63101,
   0x1000182840101000181be2201000181be22010001f14701000188e53801000189c35a01000181be6201000181be6b,
   0x1010001f16301000181bf1a01000181bf4d01000181bf5701000181bf7901000181c101010001f23a010001f21c01,
   0x1000181c11401000188cd5401000181c14701000181c24801000181c24c01000181c24e01000181c24c010001,
   0x181c27a01000181c30e01000181c33201000181c32401000181c32f01000181c35e01000181c37201000181c37601,
   0x1000181c41001000181c41b01000181c45d01000181c53101000181c55401000181c65001000188d60c010001,
   0x181c63d01000181c57c01000181c66801000181c70301000181c76401000188d77101000181c82201000181c74501,
   0x1000181c729010001f42e01000181c86901000181c87e01000181c91d01000181c877010001f46c01000181ca4f01,
   0x1000181ca6c01000188e00a01000181cb6301000181cd7801000181cc49010001f61901000181cd11010001f60801,
   0x10001f56401000181a31201000181a31501000181ce0001000181cd1c01000182812d01000181875901000181ce17,
   0x101000181ce1b01000181ce2101000181ce5e01000181ce5301000188e743010001f64901000181cf7a010001,
   0x181cf0501000181d05201000181d10501000188e86d01000181d10e01000181d01f01000181d214010001f71d0100,
   0x10181d24201000181d32301000181d36a01000181d52801000188ed2301000181d55b010001f81801000181d62101,
   0x1000188f12701000181d654010001f84e01000181d67201000181d71f01010181d73a01000188f50d01000188ba0b,
   0x101000188f57a01000181d84e01000188f93c01000181d93f01000181d94d01000181d86701000181da16010001,
   0x181da3e01000181da7701000181da4101000181da6901000181da7801000181db0501000188fa1e01000181da3401,
   0x1000181dc2f01000181dc6e010001fa3301000181dd4b01000181dd4701000188fd5101000181db7901000181de6e,
   0x101000188fe5e01000188ff0e01000181df4601000181e03901000181e01e01000181e01b010001fb16010001,
   0x181e04a01000181e07d01000181e07701000181e12d010001888a2501000181e24501000189846301000181e31c01,
   0x1000189872b01000181e42801000181e43501000181e450010001898c0801000181e50001000181e515010001,
   0x1898e3501000189901401000181e67a01000181e70b010001fd2c01000181e725010001fd38010001fd38010001,
   0x181e84701000181e85c01000181e87101000181e90501000181e94a010001fe1b01000181ea240100018998360100,
   0x10181ea3e01000189991201000181ea7001000188c31f01000181ec10010001899f21010001899f3801000189a044,
   0x1010001ff7c01000181800801000181ed7401000189a17301000189a17201000189a21901000189a233010101,
   0x181ee1e01000181ee1f01000181ee4a01000181803901000181ef0b01000181804601000181811601000189a81d01,
   0x1000181f04e01000181f10c01000181f14c01000181816301000189ac2601000181f25601000189ad1a010001,
   0x189ad4501000181f30f01000181f36b01000181822f01000181f44001000181f44a01000181f44f01000189b27c01,
   0x1000189b52701000189b52701000181f56e01000181840201000189b72b01000181f74601000181f749010001,
   0x181842701000189b90001000181f95201000181852001000181f96801000181f96301000181fa0001000189bf0601,
   0x1000181fa6301000181860101000181fb4701000181fc0201000181fc4501000181863401000189c428010001,
   0x189c44701000181865901000189c55901000181fe7a01000189c63e01000181ff1501000181ff7a01000182800501,
   0x1000189c95a01000189ca2301000182806001000189cb2801000182807001000188e65f010001818755010001,
   0x182813201000182820301000181880b01000182823e01000181b53501000189cf2701000189cf3501000188e71301,
   0x1000188e71c010001828401010001828404010001829f1e01000181886b01000182851101000182850b010001,
   0x182851d01000181a53301000182853101000182853301000182853d01000182856601000189d63c01000182856501,
   0x1000182861d01000182866301000182872d01000182862301000182873d010001828767010001828857010001,
   0x182865301000182874a01000182874c01000182875c01000189d83601000189da6b01000189d955010001818a2b01,
   0x10001828971010001828973010001828a1601000189e74a010001828a6401000189de2c010001818a5d010001,
   0x1818a6101000189df3101000189e152010001818a6b010001828c50010001828c5c010001828c67010001828c6901,
   0x10001828d29010001828d08010001828e0e010001828d62010001828e79010001828e28010001828e6b010001,
   0x1828f06010001818b57010001828f61010001829001010001818b7901000182906001000182906301000189ec6701,
   0x1000182915701000182915e010001818c3501000182917a010001e93b01000189f12e01000189f266010001818d3e,
   0x1010001818d4701000182952001000182956d01000182970a01000182985501000189f92801000182992b010001,
   0x1829941010001829a1b010001829a7701000189fe2f010001889004010001829b4b010001829b3c010001829b7001,
   0x1000188915e010001829d54010001829e380100018a8b520100018a8b6d01000182a11401000182a171010001,
   0x182a2110100018a8e2e01000182a21b01000182a43801010182a55701000182a47c01000182a77901000182a81501,
   0x100018a977a01000182ab0b01000181931501000182ab370100018a9a7701000181936601000182ad43010001,
   0x181bb3201000182ae230100018aa2450100018aa41a01000181946e01000181947601000182af600100018aa80a01,
   0x100018195320100018aa91601000182b00b01000182b00b01000182b0290100018aab3601000182b162010001,
   0x181963301000182b22901000182b32701000182b34201000182b37e01000181974e0100018ab63001000182b61201,
   0x1000182b84001000182b97d01000181994e01000181996d01000182ba670100018ac14e010001819978010001,
   0x18ac2050100018ac40e0100018ac51101000182bd3b010001819a5601000182bd7901000182bd7e01000182be0501,
   0x1000182be0f01000182be1601000182be3b0100018acc00])).toArray

/-- Reads replacements, each of which is the gap since the last one and the characters behind it. -/
def expansionRows (start : Nat) : List (List Nat) → List (Nat × List Nat)
  | (gap :: chars) :: rest => (start + gap, chars) :: expansionRows (start + gap) rest
  | _ => []

/-- The characters that are replaced by several. A zero ends each replacement. -/
def expansions : Array (Nat × List Nat) := (expansionRows 0 ((numbers
  [0x18128208608000720860400052086010004208627000431c04434000131c04432000133c044340072698607000269,
   0x16a0001696a000c6c813700016c81370009853c6e007b64827e000164827e000164827e00016c6a00016c6a00016c,
   0x16a00016e6a00016e6a00016e6a0025647a0001647a0001647a0081652086060001208607000120860a0001208628,
   0x10001208603000120860b0067860886010036208739000a208601000120860886010084028a658b0200816e8c27,
   0x18c7400018c488c7400018d478c7400018c4a8c740085609215923c00019216923c00019217923c0001921c923c00,
   0x1019221923c00019222923c0001922b923c0001922f923c007d9321933c00019322933c0002932f933c00549432,
   0x1943c00039438943c00239416943c00019417943c0001941c943c0003942b943c00817e9621963c00019622963c00,
   0x185569c4d9c320081009d4d9d3200299d2b9d1900019d2b9d2100669e429f37000a9e4c9f3700059e519f370005,
   0x19e569f3700059e5b9f37000d9e409f35000a9e719e7200029e719e7400019f329f0000019f329e719f0000019f33,
   0x19f0000019f339e719f0000089e719f0000129f129f37000a9f1c9f3700059f219f3700059f269f3700059f2b9f37,
   0x1000d9f109f35009d6161853e008166be0087390001be0187390001be0287390001be0387390001be0487390001,
   0x1be0587390001be0687390001be0787390001be0087390001be0187390001be0287390001be0387390001be048739,
   0x10001be0587390001be0687390001be0787390001be2087390001be2187390001be2287390001be2387390001be24,
   0x187390001be2587390001be2687390001be2787390001be2087390001be2187390001be2287390001be2387390001,
   0x1be2487390001be2587390001be2687390001be2787390001be6087390001be6187390001be6287390001be638739,
   0x10001be6487390001be6587390001be6687390001be6787390001be6087390001be6187390001be6287390001be63,
   0x187390001be6487390001be6587390001be6687390001be6787390003be7087390001873187390001872c87390003,
   0x1bf368739000587318739000120861300022086130001208642000120860886420001be7487390001873787390001,
   0x1872e87390003bf468739000587378739000120861386000001208613860100012086138642000e20861486000001,
   0x1208614860100012086148642000e2086088600000120860886010004be7c87390001874987390001874e87390003,
   0x1bf768739000587498739000120860100012086140019208633001cc032c0320001c032c032c0320002c035c03500,
   0x101c035c035c03500052121000220860500093f3f00013f210001213f000ec032c032c032c032005172730058612f,
   0x1630001612f7300028130630002632f6f0001632f750003813066000d6e6f000a736d000174656c0001746d001966,
   0x16178001531c04437000131c04439000131c0443130000131c04433000132c04433000131c04435000132c0443500,
   0x10133c04435000134c04435000131c04436000135c04436000131c04438000133c04438000135c04438000137c044,
   0x138000131c04400026969000169696900016976000276690001766969000176696969000169780002786900017869,
   0x1690006696900016969690001697600027669000176696900017669696900016978000278690001786969000e30,
   0x1c04433008123c42bc42b0001c42bc42bc42b0002c42ec42e0001c42ec42ec42e0084393130000131310001313200,
   0x101313300013134000131350001313600013137000131380001313900013230000128312900012832290001283329,
   0x100012834290001283529000128362900012837290001283829000128392900012831302900012831312900012831,
   0x132290001283133290001283134290001283135290001283136290001283137290001283138290001283139290001,
   0x128323029001528612900012862290001286329000128642900012865290001286629000128672900012868290001,
   0x12869290001286a290001286b290001286c290001286d290001286e290001286f2900012870290001287129000128,
   0x1722900012873290001287429000128752900012876290001287729000128782900012879290001287a29008a57,
   0x1c42bc42bc42bc42b00683a3a3d00013d3d00013d3d3d0066d55d8638008b3f20e119000120e11a0003e108e10a00,
   0x160e133e14800820128a20029000128a20229000128a20329000128a20529000128a20629000128a20729000128,
   0x1a20929000128a20b29000128a20c29000128a20e29000128a20f29000128a21029000128a21129000128a2122900,
   0x1012882d8002900012882e1182900012882e5642900012882ee7c2900012882f3482900012882f81429000128,
   0x183812c29000128838a4429000128838f102900012883982829000128839c742900012883a1402900012883a60c29,
   0x100012883aa582900012883917c29000128838c2483900429000128838c2483ad4429000228819c0029000128,
   0x1819d0c29000128819c092900012881ad5b29000128819d142900012881a26d29000128819c032900012881a26b29,
   0x1000128819c5d2900012881a6412900012881ce082900012881e06b2900012881d8342900012881ce2829000128,
   0x182a3512900012881ae1f2900012881cb652900012881d02a2900012881ce092900012881f23e2900012881a80d29,
   0x100012881e479290001288299212900012881f25d2900012881a53429000128819d632900012881a87c29000128,
   0x181b6662900012881ed6329000128819e01290001288299472900012881a6542900012881f26d29000128819e1129,
   0x100012882836a2900012882837329000d707465000132310001323200013233000132340001323500013236000132,
   0x1370001323800013239000133300001333100013332000133330001333400013335001d83983882d960000183917c,
   0x1838e5800343336000133370001333800013339000134300001343100013432000134330001343400013435000134,
   0x1360001343700013438000134390001353000013181ce0800013281ce0800013381ce0800013481ce08000135,
   0x181ce0800013681ce0800013781ce0800013881ce0800013981ce080001313081ce080001313181ce0800013132,
   0x181ce080001686700016572670001657600016c74640030819d6481a90c0001e122e151e17ce1480001e122e16b,
   0x1e155e1210001e122e173e15ae1220001e122e17ce16b0001e124e14be173e1300001e124e173e1410001e126e129,
   0x1e1730001e128e139e12fe17ce1490001e128e17ce12be17c0001e12ae173e1390001e12ae17ce1600001e12be124,
   0x1e16a0001e12be169e143e1480001e12be16de16ae17c0001e12ce16de1730001e12ce173e15e0001e12ee12c0001,
   0x1e12ee14be17c0001e12de165e16ae17c0001e12ee16be140e17c0001e12de16d0001e12de16de130e169e1600001,
   0x1e12de16de161e17ce148e16b0001e12de16de16fe143e1480001e130e169e1600001e130e169e160e148e1730001,
   0x1e12fe16be13ce124e16d0001e12fe16de17ce14d0001e131e17ce1390001e133e16be14a0001e133e17ce15d0001,
   0x1e135e124e12fe16b0001e135e173e141e17ce1600001e137e16ae173e1300001e13be173e1410001e13be173e148,
   0x10001e140e17ce1390001e147e1370001e149e16b0001e148e1730001e14ae14e0001e14ee143e1480001e14fe124,
   0x1e1440001e151e17ce13be173e1480001e151e17ce1440001e150e17ce16ce16b0001e154e122e139e148e16b0001,
   0x1e154e12fe16b0001e154e1330001e153e16b0001e155e121e169e143e1490001e155e123e17ce1480001e156e143,
   0x1e137e127e16b0001e155e169e1730001e158e12fe13fe17ce16b0001e15ae13d0001e15ae14be1520001e158e16b,
   0x1e1440001e15ae173e1390001e15ae17ce1380001e159e17ce13f0001e15de124e173e1480001e15ce16be1480001,
   0x1e15be1730001e15de173e1490001e15be17ce16b0001e15be17ce1730001e15ee124e12fe16d0001e15ee124e16b,
   0x10001e15ee143e14f0001e15ee16be12f0001e15ee173e137e167e1730001e15fe12fe16de1730001e15fe16a0001,
   0x1e15fe16ae150e17ce16b0001e161e12c0001e161e12ce148e1730001e161e17ce148e16b0001e164e17ce1490001,
   0x1e164e17ce16b0001e166e122e1730001e16ae143e148e16b0001e16ae1690001e16be154e17c0001e16be17ce156,
   0x1e16b0001e16ce1600001e16ce173e148e132e1730001e16fe143e14800013081e13900013181e13900013281e139,
   0x100013381e13900013481e13900013581e13900013681e13900013781e13900013881e13900013981e13900013130,
   0x181e1390001313181e1390001313281e1390001313381e1390001313481e1390001313581e1390001313681e13900,
   0x101313781e1390001313881e1390001313981e1390001323081e1390001323181e1390001323281e13900013233,
   0x181e1390001323481e13900016870610001646100016175000162617200016f76000170630001646d0001646d3200,
   0x101646d3300016975000181bc7381c410000181cc2d81a90c000181b22781d663000181cc0e81d93b000181d02a,
   0x181be0f819e1a81f23e0001706100016e610001873c6100016d6100016b6100016b6200016d620001676200016361,
   0x16c00016b63616c0001706600016e660001873c660001873c6700016d6700016b670001687a00016b687a00016d68,
   0x17a000167687a000174687a0001873c6c00016d6c0001646c00016b6c0001666d00016e6d0001873c6d00016d6d00,
   0x101636d00016b6d00016d6d320001636d3200016d3200016b6d3200016d6d330001636d3300016d3300016b6d3300,
   0x1016dc4157300016dc41573320001706100016b706100016d7061000167706100017261640001726164c415730001,
   0x1726164c41573320001707300016e730001873c7300016d730001707600016e760001873c7600016d7600016b7600,
   0x1016d760001707700016e770001873c7700016d7700016b7700016d7700016b874900016d87490002627100016363,
   0x100016364000163c4156b67000264620001677900016861000168700001696e00016b6b00016b6d00016b7400016c,
   0x16d00016c6e00016c6f6700016c7800016d6200016d696c00016d6f6c00017068000270706d000170720001737200,
   0x101737600017762000176c4156d000161c4156d00013181cb6500013281cb6500013381cb6500013481cb65000135,
   0x181cb6500013681cb6500013781cb6500013881cb6500013981cb650001313081cb650001313181cb6500013132,
   0x181cb650001313381cb650001313481cb650001313581cb650001313681cb650001313781cb650001313881cb6500,
   0x101313981cb650001323081cb650001323181cb650001323281cb650001323381cb650001323481cb6500013235,
   0x181cb650001323681cb650001323781cb650001323881cb650001323981cb650001333081cb650001333181cb6500,
   0x10167616c00838e016666000166690001666c0001666669000166666c0001737400017374000d8a748a7600018a74,
   0x18a6500018a748a6b00018a7e8a7600018a748a6d00068b598b3400028b728b37000b8b698b4100018b698b420001,
   0x18b698b3c8b4100018b698b3c8b4200018b508b3700018b508b3800018b508b3c00018b518b3c00018b528b3c0001,
   0x18b538b3c00018b548b3c00018b558b3c00018b568b3c00028b588b3c00018b598b3c00018b5a8b3c00018b5b8b3c,
   0x100018b5c8b3c00028b5e8b3c00028b608b3c00018b618b3c00028b638b3c00018b648b3c00028b668b3c00018b67,
   0x18b3c00018b688b3c00018b698b3c00018b6a8b3c00018b558b3900018b518b3f00018b5b8b3f00018b648b3f0001,
   0x18b508b5c00810e8d478c74000d8c268c2700018c268c2700018c268d5500018c268d5500018c268c4800018c26,
   0x18c4800018c268d4700018c268d4700018c268d4600018c268d4600018c268d4800018c268d4800018c268d500001,
   0x18c268d5000018c268d5000018c268c4900018c268c4900018c268c4900058c268c2c00018c268c2d00018c268c45,
   0x100018c268c4900018c268c4a00018c288c2c00018c288c2d00018c288c2e00018c288c4500018c288c4900018c28,
   0x18c4a00018c2a8c2c00018c2a8c2d00018c2a8c2e00018c2a8c4500018c2a8c4900018c2a8c4a00018c2b8c2c0001,
   0x18c2b8c4500018c2b8c4900018c2b8c4a00018c2c8c2d00018c2c8c4500018c2d8c2c00018c2d8c4500018c2e8c2c,
   0x100018c2e8c2d00018c2e8c4500018c338c2c00018c338c2d00018c338c2e00018c338c4500018c358c2d00018c35,
   0x18c4500018c368c2c00018c368c2d00018c368c2e00018c368c4500018c378c2d00018c378c4500018c388c450001,
   0x18c398c2c00018c398c4500018c3a8c2c00018c3a8c4500018c418c2c00018c418c2d00018c418c2e00018c418c45,
   0x100018c418c4900018c418c4a00018c428c2d00018c428c4500018c428c4900018c428c4a00018c438c2700018c43,
   0x18c2c00018c438c2d00018c438c2e00018c438c4400018c438c4500018c438c4900018c438c4a00018c448c2c0001,
   0x18c448c2d00018c448c2e00018c448c4500018c448c4900018c448c4a00018c458c2c00018c458c2d00018c458c2e,
   0x100018c458c4500018c458c4900018c458c4a00018c468c2c00018c468c2d00018c468c2e00018c468c4500018c46,
   0x18c4900018c468c4a00018c478c2c00018c478c4500018c478c4900018c478c4a00018c4a8c2c00018c4a8c2d0001,
   0x18c4a8c2e00018c4a8c4500018c4a8c4900018c4a8c4a00018c308c7000018c318c7000018c498c700001208c4c,
   0x18c510001208c4d8c510001208c4e8c510001208c4f8c510001208c508c510001208c518c7000018c268c310001,
   0x18c268c3200018c268c4500018c268c4600018c268c4900018c268c4a00018c288c3100018c288c3200018c288c45,
   0x100018c288c4600018c288c4900018c288c4a00018c2a8c3100018c2a8c3200018c2a8c4500018c2a8c4600018c2a,
   0x18c4900018c2a8c4a00018c2b8c3100018c2b8c3200018c2b8c4500018c2b8c4600018c2b8c4900018c2b8c4a0001,
   0x18c418c4900018c418c4a00018c428c4900018c428c4a00018c438c2700018c438c4400018c438c4500018c438c49,
   0x100018c438c4a00018c448c4500018c448c4900018c448c4a00018c458c2700018c458c4500018c468c3100018c46,
   0x18c3200018c468c4500018c468c4600018c468c4900018c468c4a00018c498c7000018c4a8c3100018c4a8c320001,
   0x18c4a8c4500018c4a8c4600018c4a8c4900018c4a8c4a00018c268c2c00018c268c2d00018c268c2e00018c268c45,
   0x100018c268c4700018c288c2c00018c288c2d00018c288c2e00018c288c4500018c288c4700018c2a8c2c00018c2a,
   0x18c2d00018c2a8c2e00018c2a8c4500018c2a8c4700018c2b8c4500018c2c8c2d00018c2c8c4500018c2d8c2c0001,
   0x18c2d8c4500018c2e8c2c00018c2e8c4500018c338c2c00018c338c2d00018c338c2e00018c338c4500018c358c2d,
   0x100018c358c2e00018c358c4500018c368c2c00018c368c2d00018c368c2e00018c368c4500018c378c2d00018c38,
   0x18c4500018c398c2c00018c398c4500018c3a8c2c00018c3a8c4500018c418c2c00018c418c2d00018c418c2e0001,
   0x18c418c4500018c428c2d00018c428c4500018c438c2c00018c438c2d00018c438c2e00018c438c4400018c438c45,
   0x100018c448c2c00018c448c2d00018c448c2e00018c448c4500018c448c4700018c458c2c00018c458c2d00018c45,
   0x18c2e00018c458c4500018c468c2c00018c468c2d00018c468c2e00018c468c4500018c468c4700018c478c2c0001,
   0x18c478c4500018c478c7000018c4a8c2c00018c4a8c2d00018c4a8c2e00018c4a8c4500018c4a8c4700018c268c45,
   0x100018c268c4700018c288c4500018c288c4700018c2a8c4500018c2a8c4700018c2b8c4500018c2b8c4700018c33,
   0x18c4500018c338c4700018c348c4500018c348c4700018c438c4400018c438c4500018c448c4500018c468c450001,
   0x18c468c4700018c4a8c4500018c4a8c4700018c408c4e8c5100018c408c4f8c5100018c408c508c5100018c378c49,
   0x100018c378c4a00018c398c4900018c398c4a00018c3a8c4900018c3a8c4a00018c338c4900018c338c4a00018c34,
   0x18c4900018c348c4a00018c2d8c4900018c2d8c4a00018c2c8c4900018c2c8c4a00018c2e8c4900018c2e8c4a0001,
   0x18c358c4900018c358c4a00018c368c4900018c368c4a00018c348c2c00018c348c2d00018c348c2e00018c348c45,
   0x100018c348c3100018c338c3100018c358c3100018c368c3100018c378c4900018c378c4a00018c398c4900018c39,
   0x18c4a00018c3a8c4900018c3a8c4a00018c338c4900018c338c4a00018c348c4900018c348c4a00018c2d8c490001,
   0x18c2d8c4a00018c2c8c4900018c2c8c4a00018c2e8c4900018c2e8c4a00018c358c4900018c358c4a00018c368c49,
   0x100018c368c4a00018c348c2c00018c348c2d00018c348c2e00018c348c4500018c348c3100018c338c3100018c35,
   0x18c3100018c368c3100018c348c2c00018c348c2d00018c348c2e00018c348c4500018c338c4700018c348c470001,
   0x18c378c4500018c338c2c00018c338c2d00018c338c2e00018c348c2c00018c348c2d00018c348c2e00018c378c45,
   0x100018c388c4500018c278c4b00018c278c4b00138c2a8c2c8c4500018c2a8c2d8c2c00018c2a8c2d8c2c00018c2a,
   0x18c2d8c4500018c2a8c2e8c4500018c2a8c458c2c00018c2a8c458c2d00018c2a8c458c2e00018c2c8c458c2d0001,
   0x18c2c8c458c2d00018c2d8c458c4a00018c2d8c458c4900018c338c2d8c2c00018c338c2c8c2d00018c338c2c8c49,
   0x100018c338c458c2d00018c338c458c2d00018c338c458c2c00018c338c458c4500018c338c458c4500018c358c2d,
   0x18c2d00018c358c2d8c2d00018c358c458c4500018c348c2d8c4500018c348c2d8c4500018c348c2c8c4a00018c34,
   0x18c458c2e00018c348c458c2e00018c348c458c4500018c348c458c4500018c368c2d8c4900018c368c2e8c450001,
   0x18c368c2e8c4500018c378c458c2d00018c378c458c2d00018c378c458c4500018c378c458c4a00018c398c2c8c45,
   0x100018c398c458c4500018c398c458c4500018c398c458c4900018c3a8c458c4500018c3a8c458c4a00018c3a8c45,
   0x18c4900018c418c2e8c4500018c418c2e8c4500018c428c458c2d00018c428c458c4500018c448c2d8c4500018c44,
   0x18c2d8c4a00018c448c2d8c4900018c448c2c8c2c00018c448c2c8c2c00018c448c2e8c4500018c448c2e8c450001,
   0x18c448c458c2d00018c448c458c2d00018c458c2d8c2c00018c458c2d8c4500018c458c2d8c4a00018c458c2c8c2d,
   0x100018c458c2c8c4500018c458c2e8c2c00018c458c2e8c4500038c458c2c8c2e00018c478c458c2c00018c478c45,
   0x18c4500018c468c2d8c4500018c468c2d8c4900018c468c2c8c4500018c468c2c8c4500018c468c2c8c4900018c46,
   0x18c458c4a00018c468c458c4900018c4a8c458c4500018c4a8c458c4500018c288c2e8c4a00018c2a8c2c8c4a0001,
   0x18c2a8c2c8c4900018c2a8c2e8c4a00018c2a8c2e8c4900018c2a8c458c4a00018c2a8c458c4900018c2c8c458c4a,
   0x100018c2c8c2d8c4900018c2c8c458c4900018c338c2e8c4900018c358c2d8c4a00018c348c2d8c4a00018c368c2d,
   0x18c4a00018c448c2c8c4a00018c448c458c4a00018c4a8c2d8c4a00018c4a8c2c8c4a00018c4a8c458c4a00018c45,
   0x18c458c4a00018c428c458c4a00018c468c2d8c4a00018c428c458c2d00018c448c2d8c4500018c398c458c4a0001,
   0x18c438c458c4a00018c468c2c8c2d00018c458c2e8c4a00018c448c2c8c4500018c438c458c4500018c448c2c8c45,
   0x100018c468c2c8c2d00018c2c8c2d8c4a00018c2d8c2c8c4a00018c458c2c8c4a00018c418c458c4a00018c288c2d,
   0x18c4a00018c438c458c4500018c398c2c8c4500018c358c458c4500018c338c2e8c4a00018c468c2c8c4a00298c35,
   0x18c448d5200018c428c448d5200018c278c448c448c4700018c278c438c288c3100018c458c2d8c458c2f00018c35,
   0x18c448c398c4500018c318c338c488c4400018c398c448c4a8c4700018c488c338c448c4500018c358c448c490001,
   0x18c358c448c49208c278c448c448c47208c398c448c4a8c47208c488c338c448c4500018c2c8c44208c2c8c448c27,
   0x18c448c4700018c318d4c8c278c44004d2086050001208605000120860500012086050024208c4b00018c408c4b00,
   0x101208c4c0002208c4d0002208c4e00018c408c4e0001208c4f00018c408c4f0001208c5000018c408c50000120,
   0x18c5100018c408c510001208c5200018c408c5200768c448c2200018c448c2200018c448c2300018c448c230001,
   0x18c448c2500018c448c2500018c448c2700018c448c270081672086040083a27b87a25787a265000187a25887a265,
   0x1000187a25887a26587a26e000187a25887a26587a26f000187a25887a26587a270000187a25887a26587a2710001,
   0x187a25887a26587a272005787a33987a265000187a33a87a265000187a33987a26587a26e000187a33a87a265,
   0x187a26e000187a33987a26587a26f000187a33a87a26587a26f00be41302c0001312c0001322c0001332c0001342c,
   0x10001352c0001362c0001372c0001382c0001392c0006286129000128622900012863290001286429000128652900,
   0x1012866290001286729000128682900012869290001286a290001286b290001286c290001286d290001286e290001,
   0x1286f2900012870290001287129000128722900012873290001287429000128752900012876290001287729000128,
   0x1782900012879290001287a290001e01473e015000363640001777a001c687600016d760001736400017373000170,
   0x1707600017763001b6d6300016d6400016d720024646a0070e07be04b0001e133e133003fe01481ce2ce0150001,
   0x1e014819c09e0150001e014819d0ce0150001e01481b709e0150001e01481e139e0150001e01481c453e0150001,
   0x1e01481ed57e0150001e01481a55de0150001e01481ca57e01500]).splitOn 0)).toArray

/-- What becomes of a character. -/
inductive Mapping where
  | kept
  | replaced (by_ : List Nat)
  | disallowed
deriving DecidableEq, Repr

/-- What becomes of a character outside ASCII. A character that is left out is replaced by none. -/
def wideMapping (n : Nat) : Mapping :=
  if disallowedRanges.has n then .disallowed
  else if ignoredRanges.has n then .replaced []
  else match lastUpTo? Shift.first shifts n with
    | some s =>
      if n ≤ s.last && (n - s.first) % s.step == 0 then .replaced [s.target + (n - s.first)]
      else expansion n
    | none => expansion n
where
  /-- The replacement by several characters, if there is one. -/
  expansion (n : Nat) : Mapping :=
    match lastUpTo? Prod.fst expansions n with
    | some (c, chars) => if c = n then .replaced chars else .kept
    | none => .kept

/-- What becomes of a character of a domain name. -/
def mapping (c : Char) : Mapping :=
  let n := c.toNat
  if n < 0x80 then
    if 0x41 ≤ n && n ≤ 0x5A then .replaced [n + 32] else .kept
  else wideMapping n

end SecretClient.Unicode
