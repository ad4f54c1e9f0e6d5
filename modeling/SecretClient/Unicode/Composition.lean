import SecretClient.Unicode.Table

/-!
# Canonical decomposition and composition

The tables behind Normalization Form C: which characters are written as one or two others, which
pairs are never composed, and the classes by which marks are put in order. Hangul syllables follow
from arithmetic and are in no table.
-/

namespace SecretClient.Unicode

/-- The ranges of the characters with a combining class other than zero. -/
def combiningRanges : RangeMap := .ofLines
  [0x18600148166010081680103815c01008168010081580104815c0101814a0103815c0101814a010a815c0104010103,
   0x1815c0107816601008170010081660102815c010281660101815c020281660103815c01008166010081680101815c,
   0x101008166010081690101816a010081690101816a01008169010c81668214048166820a00815c010381660100815c,
   0x1010281660100815e0100815c010581660105815c010181660100815c010181660100815e01008164010081660100,
   0x10a01000b01000c01000d01000e01000f010010010011010012010113010014010015010016020017020018010019,
   0x1020081660100815c0200124907816601001e01001f01002031001b01001c01001d01001e01001f01002001002101,
   0x10022010181660101815c010481660100815c010181660100815c11002366068166030381660100815c0100816603,
   0x10181660200815c010181660100815c2400241f0081660100815c010181660100815c010181660102815c01008166,
   0x10101815c010081660100815c010281660100815c010081660100815c010081660100815c010081660100815c0101,
   0x1816681210681660100815c010081660a00815c190381660208816602028166020481662c02815c3d0081660102,
   0x1815c010381662b0481660104815c010d81660200815c010181660100815c010181660100815c010281660102815c,
   0x101001b01001c01001d010281660100815c010181660101815c010481663d0007110009040081660100815c0101,
   0x18166680007110009310081663e00071100096f00071100096f0007110009810000096f000711000908005401005b,
   0x16600071100096e01091100097d00096e01670100090e036b6d01760100090e037a4d01815c1c00815c0200815c02,
   0x1008158380081010100810202008104060381020300810202018166010009020181663f00815c7100070201095300,
   0x1815c8550028166873501091f0009811e00090b008166814c008164811000815e010081660100815c815c00816601,
   0x100815c480009150781660300815c310481660105815c010181660100815c0201815c010181660101815c01048166,
   0x10100815c01038166660007100009270081660100815c010681663701093b00070c01094400078119028166020001,
   0x10104815c010181660103815c010081660206010500815c070081660401816681470181660100815c010681660100,
   0x1815c010181660100816a010081560100815c0100814a0124816601008168010181640100815c0100815a01008166,
   0x1010081690100815c010081660100815c855101816601010101038166010201010181660500816604010101008166,
   0x10100815c010081660101010103815c01008166977f028166810e0009611f8166842b00815a010081640100816801,
   0x100815e010181606a010881eb5500816605098166210181665101816682150009260009811800091c1181663a02,
   0x1815c2600096000070d00098170008166020181660100815c03018166060181660200816635000981770009819e31,
   0x1001a86020681660106815c01018166874e00815c816300815c81160481668d1300815c0200816629008166010001,
   0x10100815c05000981260081660100815c843e03816683040181665102815c4701815c010281660100815c01008166,
   0x10103815c320081660100815c010081660100815c814100092a00090f00093a0009010007460281663101093f0007,
   0x14d00090a00076b0009010007813300070100095101071100091906816604048166814e0009040007180081666400,
   0x109010007817c00090100077f0009770009010007740009820e000901000782030109050007811d00095400091300,
   0x1095200098326000982030007020109520009832a010981972e04013c068166893a010681992d0001a94701815801,
   0x1020104008162010481580907815c030481660101815c1f03816681150281669b3c06816602108166030681660201,
   0x181660204816665008166812106816682780081663e038166837d0181680100815c01008166876106815c6e058166,
   0x1010007]

/-- The canonical combining class. -/
def combiningClass (n : Nat) : Nat :=
  if n < 0x300 then 0 else (combiningRanges.get? n).getD 0

/-- Reads rows of a character, given as the gap since the last one, and the one or two characters
that it decomposes into; zero stands for a missing second one. -/
def decompositionRows (start : Nat) : List Nat → List (Nat × Nat × Nat)
  | gap :: first :: second :: rest =>
    (start + gap, first, second) :: decompositionRows (start + gap) rest
  | _ => []

/-- The characters with a canonical decomposition, with its first step. -/
def decompositions : Array (Nat × Nat × Nat) := (decompositionRows 0 (numbers
  [0x18140418600014186010141860201418603014186080141860a024386270145860001458601014586020145860801,
   0x1498600014986010149860201498608024e8603014f8600014f8601014f8602014f8603014f8608035586000155,
   0x1860101558602015586080159860103618600016186010161860201618603016186080161860a0263862701658600,
   0x101658601016586020165860801698600016986010169860201698608026e8603016f8600016f8601016f8602016f,
   0x18603016f860803758600017586010175860201758608017986010279860801418604016186040141860601618606,
   0x101418628016186280143860101638601014386020163860201438607016386070143860c0163860c0144860c0164,
   0x1860c03458604016586040145860601658606014586070165860701458628016586280145860c0165860c01478602,
   0x101678602014786060167860601478607016786070147862701678627014886020168860203498603016986030149,
   0x18604016986040149860601698606014986280169862801498607044a8602016a8602014b8627016b8627024c8601,
   0x1016c8601014c8627016c8627014c860c016c860c054e8601016e8601014e8627016e8627014e860c016e860c044f,
   0x18604016f8604014f8606016f8606014f860b016f860b035286010172860101528627017286270152860c0172860c,
   0x10153860101738601015386020173860201538627017386270153860c0173860c01548627017486270154860c0174,
   0x1860c0355860301758603015586040175860401558606017586060155860a0175860a0155860b0175860b01558628,
   0x1017586280157860201778602015986020179860201598608015a8601017a8601015a8607017a8607015a860c017a,
   0x1860c224f861b016f861b0e55861b0175861b1d41860c0161860c0149860c0169860c014f860c016f860c0155860c,
   0x10175860c01815c860401817c860401815c860101817c860101815c860c01817c860c01815c860001817c860002,
   0x181448604018164860401842686040184278604018146860401816686040347860c0167860c014b860c016b860c01,
   0x14f8628016f862801836a860401836b8604018337860c018512860c016a860c0447860101678601034e8600016e,
   0x186000181458601018165860101814686010181668601018158860101817886010141860f0161860f014186110161,
   0x186110145860f0165860f01458611016586110149860f0169860f0149861101698611014f860f016f860f014f8611,
   0x1016f86110152860f0172860f01528611017286110155860f0175860f015586110175861101538626017386260154,
   0x18626017486260348860c0168860c0741860701618607014586270165862701815686040181768604018155860401,
   0x181758604014f8607016f860701842e860401842f86040159860401798604820d8600000186010002861300018608,
   0x18601308539000a3b00078128860101871186010181370001871586010187178601018719860102871f8601028725,
   0x18601018729860101874a86011a871986080187258608018731860101873586010187378601018739860101874b,
   0x186011a87398608018745860801873f860101874586010187498601058752860101875286082c88158600018815,
   0x186080288138601048806860805881a8601018818860001882386060b8818860620883886061788358600018835,
   0x186080288338601048856860805883a860101883886000188438606188874860f018875860f4a88168606018836,
   0x186060e881086060188308606018810860801883086080388158606018835860603895886080189598608018816,
   0x18608018836860801881786080188378608038818860401883886040188188608018838860801881e860801883e,
   0x186080389688608018969860801882d860801884d86080188238604018843860401882386080188438608018823,
   0x1860b018843860b0188278608018847860803882b860801884b860882298c278c53018c278c54018c488c54018c27,
   0x18c55018c4a8c54811a8d558c54028d418c54118d528c5484569228923c089230923c039233923c249215923c01,
   0x19216923c019217923c01921c923c019221923c019222923c01922b923c01922f923c6c9347933e019347935710,
   0x19321933c019322933c02932f933c549432943c039438943c239416943c019417943c01941c943c03942b943c816a,
   0x196479656039647963e0196479657109621963c019622963c3797129757369746973e019747973e01974697577c,
   0x19846985678993f995507994699550199469956029946994201994a99557f9a469a3e019a479a3e019a469a57810e,
   0x19b599b4a029b599b4f019b5c9b4a019b599b5f82659e429f370a9e4c9f37059e519f37059e569f37059e5b9f370d,
   0x19e409f350a9e719e72029e719e74019f329f00029f339f00099e719f00129f129f370a9f1c9f37059f219f3705,
   0x19f269f37059f2b9f370d9f109f356da025a02e9560b605b63502b607b63502b609b63502b60bb63502b60db63504,
   0x1b611b63529b63ab63502b63cb63503b63eb63501b63fb63502b642b635853d418625016186250142860701628607,
   0x101428623016286230142863101628631018147860101816786010144860701648607014486230164862301448631,
   0x10164863101448627016486270144862d0164862d01821286000182138600018212860101821386010145862d0165,
   0x1862d0145863001658630018428860601842986060146860701668607014786040167860401488607016886070148,
   0x1862301688623014886080168860801488627016886270148862e0168862e014986300169863001814f860101816f,
   0x18601014b8601016b8601014b8623016b8623014b8631016b8631014c8623016c862301bc36860401bc378604014c,
   0x18631016c8631014c862d016c862d014d8601016d8601014d8607016d8607014d8623016d8623014e8607016e8607,
   0x1014e8623016e8623014e8631016e8631014e862d016e862d018155860101817586010181558608018175860801,
   0x1824c860001824d860001824c860101824d86010150860101708601015086070170860701528607017286070152,
   0x186230172862301bc5a860401bc5b860401528631017286310153860701738607015386230173862301825a860701,
   0x1825b86070182608607018261860701bc62860701bc63860701548607017486070154862301748623015486310174,
   0x186310154862d0174862d015586240175862401558630017586300155862d0175862d0182688601018269860101,
   0x1826a860801826b860801568603017686030156862301768623015786000177860001578601017786010157860801,
   0x177860801578607017786070157862301778623015886070178860701588608017886080159860701798607015a,
   0x18602017a8602015a8623017a8623015a8631017a863101688631017486080177860a0179860a02827f86070541,
   0x1862301618623014186090161860901814286010181628601018142860001816286000181428609018162860901,
   0x181428603018162860301bd20860201bd2186020182028601018203860101820286000182038600018202860901,
   0x1820386090182028603018203860301bd20860601bd21860601458623016586230145860901658609014586030165,
   0x1860301814a860101816a860101814a860001816a860001814a860901816a860901814a860301816a860301bd38,
   0x1860201bd39860201498609016986090149862301698623014f8623016f8623014f8609016f8609018154860101,
   0x18174860101815486000181748600018154860901817486090181548603018174860301bd4c860201bd4d860201,
   0x1832086010183218601018320860001832186000183208609018321860901832086030183218603018320862301,
   0x1832186230155862301758623015586090175860901832f8601018330860101832f8600018330860001832f860901,
   0x18330860901832f8603018330860301832f8623018330862301598600017986000159862301798623015986090179,
   0x1860901598603017986030787318613018731861401be00860001be01860001be00860101be01860101be00864201,
   0x1be0186420187118613018711861401be08860001be09860001be08860101be09860101be08864201be09864201,
   0x187358613018735861401be10860001be11860001be10860101be1186010387158613018715861401be18860001,
   0x1be19860001be18860101be1986010387378613018737861401be20860001be21860001be20860101be21860101,
   0x1be20864201be2186420187178613018717861401be28860001be29860001be28860101be29860101be28864201,
   0x1be2986420187398613018739861401be30860001be31860001be30860101be31860101be30864201be31864201,
   0x187198613018719861401be38860001be39860001be38860101be39860101be38864201be39864201873f861301,
   0x1873f861401be40860001be41860001be40860101be41860103871f861301871f861401be48860001be49860001,
   0x1be48860101be4986010387458613018745861401be50860001be51860001be50860101be51860101be50864201,
   0x1be518642028725861402be59860002be59860102be5986420187498613018749861401be60860001be61860001,
   0x1be60860101be61860101be60864201be6186420187298613018729861401be68860001be69860001be68860101,
   0x1be69860101be68864201be698642018731860001872c00018735860001872d00018737860001872e000187398600,
   0x101872f0001873f860001874c00018745860001874d00018749860001874e0003be00864501be01864501be028645,
   0x101be03864501be04864501be05864501be06864501be07864501be08864501be09864501be0a864501be0b864501,
   0x1be0c864501be0d864501be0e864501be0f864501be20864501be21864501be22864501be23864501be24864501,
   0x1be25864501be26864501be27864501be28864501be29864501be2a864501be2b864501be2c864501be2d864501,
   0x1be2e864501be2f864501be60864501be61864501be62864501be63864501be64864501be65864501be66864501,
   0x1be67864501be68864501be69864501be6a864501be6b864501be6c864501be6d864501be6e864501be6f864501,
   0x187318606018731860401be708645018731864501872c8645028731864201bf3686450187118606018711860401,
   0x18711860001870600018711864502873900038128864201be748645018737864501872e8645028737864201bf46,
   0x18645018715860001870800018717860001870900018717864501bf3f860001bf3f860101bf3f8642018739860601,
   0x18739860401874a860001871000038739864201874a864201871986060187198604018719860001870a0002bf7e,
   0x1860001bf7e860101bf7e86420187458606018745860401874b860001873000018741861301874186140187458642,
   0x101874b864201872586060187258604018725860001870e00018721861401812886000187050001600003be7c8645,
   0x1018749864501874e8645028749864201bf76864501871f860001870c00018729860001870f000187298645018134,
   0x10003c0020001c003008225872900044b00018145006fc310863801c312863813c31486381fc350863801c3548638,
   0x101c352863835c403863805c408863803c40b863818c423863802c42586381bc43c863803c443863803c445863802,
   0x1c4488638173d863802c46186380bc44d8638013c8638013e863801c464863801c465863803c472863801c4738638,
   0x103c476863801c477863807c47a863801c47b863803c502863801c503863803c506863801c507863823c522863801,
   0x1c528863801c529863801c52b863831c47c863801c47d863801c511863801c512863807c532863801c533863801,
   0x1c534863801c53586383ce0080001e009008f32d55d86388a70e04be11902e04de11902e04fe11902e051e11902,
   0x1e053e11902e055e11902e057e11902e059e11902e05be11902e05de11902e05fe11902e061e11903e064e11902,
   0x1e066e11902e068e11907e06fe11901e06fe11a02e072e11901e072e11a02e075e11901e075e11a02e078e11901,
   0x1e078e11a02e07be11901e07be11a17e046e1190ae11de1190ee12be11902e12de11902e12fe11902e131e11902,
   0x1e133e11902e135e11902e137e11902e139e11902e13be11902e13de11902e13fe11902e141e11903e144e11902,
   0x1e146e11902e148e11907e14fe11901e14fe11a02e152e11901e152e11a02e155e11901e155e11a02e158e11901,
   0x1e158e11a02e15be11901e15be11a17e126e11903e16fe11901e170e11901e171e11901e172e11904e17de119,
   0x1839002829848000181cd740001829d4a0001829948000181dd510001819c32000181a765000182bf1c000182bf1c,
   0x1000181b251000182a351000181ab07000181b248000181c376000181ec69000181ff050001828c3f0001828f3a00,
   0x101829178000182a10f000181d402000181da1b000181e159000181e75e000182883d000182a26a000182b3710001,
   0x1819d02000181a675000181d604000181e41b0001828c2d000182bc1e000181ba50000181df6b0001828b4d0001,
   0x1829264000181c5490001828358000182901f000181bd4a000181ce17000181da6a000181e57c000182a14e0001,
   0x1819f06000181a337000181a55e000181c944000181d553000181e410000181ed6700018280010001828c060001,
   0x1828c5c0001829b6f000182ae32000182b66f000182bb7a000181f10c000181f27f000181fb2000018287490001,
   0x182a604000182bc7f0001829556000181b15f000181be04000181f860000182807e000181e462000181f14a0001,
   0x1829942000182ad77000181b158000181b862000181d413000181db5a000181de0f000181fa2f000181fc370001,
   0x182ac4b000181a552000182810b000181a35c000181a34c000181f41c000181fb3e0001828771000182ac750001,
   0x1829700000181c54f000181d402000182957e0001819c39000181b767000181c012000181e707000181ea700001,
   0x181a617000181f17b0001819f3f000181bf290001819c0d000181d94c000181ca78000181fa22000181a7430001,
   0x181b05e000181ee010001828849000182952a000181d73a0001829f30000181d908000181c57e00018285650001,
   0x181c720000181ea650001819d2e000181a269000181a349000181d101000181f967000182846f00018295520001,
   0x182a34f000181a575000181a842000181b273000181bd6c000181cb45000181df7e000181f22a000182ab2d0001,
   0x182b46a000182bd17000182bd4e000181a51b000181cd46000181d6770001829e62000181bc74000181c3100001,
   0x181c400000181c91a000181de23000181e249000181e909000181f34a000181fb74000182806f0001829e260001,
   0x182896e000182a023000182a64a000181a417000181a523000181a93d000181e1480001829142000182952a0001,
   0x181bd49000181bf75000181c67b000181d72e000181f83e000181e6750001819d64000181ad79000181b7670001,
   0x181bb3a000181c01c000181e732000181e869000181ff1a0001828046000182a434000182ad76000182ae480001,
   0x182b0180001819f0b000181f32e000182a334000182ad38000181c1610001819d06000181a15a000181b76e0001,
   0x181b83f000181cb19000181d402000181e34e000181ec42000182897c000182a07c000182bf0d000181cd080001,
   0x182ac2e000181a509000181ce7b000181cf73000181da41000181dd1c000181e809000181ea59000181f06b0001,
   0x181fa10000182b05e000181a26d000181c42e000182ac78000181a02b000181ba19000181db6a0001829e2a0001,
   0x181bf0b000181c244000181d017000181e707000182ad06000181a429000181a80f000181b865000181cc130001,
   0x181ce4e000181d128000181d965000181e806000181eb62000181fe79000182914f0001829161000182a34c0001,
   0x182ad62000181a63f000181dd3a000181a81d000181e350000181e9180001828b7a000182ad23000182b8570001,
   0x182bd1f000181cf17000181db4b0001828368000181f54b000181f620000181f912000181e540000181e1190001,
   0x18296580001819d400001828636000181a43a000181a407000181bd26000181c553000181f956000181b7050001,
   0x181da1e000181cd340001829e3b000182904c000182ac4d000182930b000181bd53000181a240000181ab400003,
   0x181b05a000281cc74000381a35e000181e62a000181ed4a000181f23c000181f25e000181f265000181f30f0001,
   0x182ae56000181f93e000181ff3d0002828c120002829578000382a038000182a17d000482b16f000182b17c0001,
   0x182b228000182bb34000182a15e000182ad370001819f2e000181a167000181a24d000181a549000181a5640001,
   0x181a651000181ab1d000181ac06000181ac68000181b040000181b128000181b864000181b86e000181c1140001,
   0x181c268000181c30e000181c372000181ca4f000181cb62000181cd11000181d105000181da77000181dc1a0001,
   0x181de22000181e26e000181e42b000181e822000181f111000181f23e000181f249000181f248000181f2500001,
   0x181f256000181f25d000181f30d000181f30e000181f440000181f501000181f740000181fb74000181fc090001,
   0x181fc41000181fe720001828005000182836d000182847900018284790001828857000182921000018293160001,
   0x1829601000182963900018299530001829a080001829f36000182a038000182ad63000182af7f000182b03b0001,
   0x181c075000189856e00018284180003819c26000181a335000181a2680001819f00000181a245000181a3000001,
   0x181a547000181a57a000181ab1d000181aa55000181ab19000181ab62000181b05a000181b133000181b2440001,
   0x181b254000181b462000181b628000181bd52000181bd59000181be69000181bf2d000181c158000181c24e0001,
   0x181c208000181c30e000181c260000181c372000181c434000181c744000181c81c000181c852000181ca560001,
   0x181cc74000181ce17000181ce1b000181ce56000181d679000181d73a000181da41000181dd5b000181dd4b0001,
   0x181de22000181e01e000181e26e000181ef27000181e435000181e52f000181e62a000181e871000181ea060001,
   0x181ea3b000181ec1d000181ec1f000181ed4a000181ed5b000181ed74000181ee4a000181ee40000181f14c0001,
   0x181f531000181f740000181f87b000181fa5b000181fb74000181fe3e00018280050001828652000182876f0001,
   0x1828e79000182924100018293060001829316000182953f0001829578000182954b0001829601000182957e0001,
   0x182956d0001829639000182970a0001829a080001829e38000182a072000182a319000182a476000182ac7c0001,
   0x182ad63000182ae56000182af5b000182af7f000182b00b000182b03b000182b612000182bf1c000188d04a0001,
   0x188d044000188e7550001f71d00018180180001818039000189a449000189b950000189fd53000182be430001,
   0x182bf0e00448b598b34028b728b370b8b698b41018b698b420183f6498b410183f6498b42018b508b37018b508b38,
   0x1018b508b3c018b518b3c018b528b3c018b538b3c018b548b3c018b558b3c018b568b3c028b588b3c018b598b3c01,
   0x18b5a8b3c018b5b8b3c018b5c8b3c028b5e8b3c028b608b3c018b618b3c028b638b3c018b648b3c028b668b3c01,
   0x18b678b3c018b688b3c018b698b3c018b6a8b3c018b558b39018b518b3f018b5b8b3f018b648b3faa4c84a119,
   0x184a13a0284a11b84a13a0f84a12584a13a810384a23184a2270184a23284a227841c84a64784a63e0184a647,
   0x184a657826f84a93984a93a0184a93984a9300284a93984a93d817c84ab3884ab2f0184ab3984ab2f867d84b235,
   0x184b23082f02687a25787a2650187a25887a2650187a25f87a26e0187a25f87a26f0187a25f87a2700187a25f,
   0x187a2710187a25f87a2725787a33987a2650187a33a87a2650187a33b87a26e0187a33c87a26e0187a33b87a26f01,
   0x187a33c87a26f84cc40819c3d0001819c380001819c4100018882220001819e600001819f2e0001819f3b0001,
   0x181a002000181a07a000181a119000181a167000181a14f0001e91e0001888c3a000181a24d000181a2540001,
   0x181a264000181a2770001888a1c0001e939000181a267000181a30d0001888a4b000181a317000181a3240001,
   0x1819d4c000181a32c000181a33500018aa35f000181a375000181a4030001e95f000181a43b000181a4460001,
   0x181a472000181a4770001ea15000181a547000181a549000181a564000181a57a000181a605000181a6060001,
   0x181a617000181a649000181a651000181a65a000181a673000181a67d000181a67f000181a67f000181a67f0001,
   0x188942c000181e070000181a74a000181a75f0001889663000181a76b000181a771000181a806000181a91e0001,
   0x181a838000181a848000181a868000181a922000181a976000181aa10000181aa53000181aa63000181ab040001,
   0x181ab04000181ab19000181ab2b000181ab33000181ab42000181ae16000181ac06000181ae17000181ac510001,
   0x181ac74000181a407000181b16e000181af4e000181af74000181b00d000181af0b000181b032000181b0310001,
   0x181b12c000188a964000181b172000181b177000181b206000181b21a000181b222000181b262000188ad280001,
   0x188ad6a000181b36c000181b41b000181b427000181b358000181b4660001ed6e0001ed7c000181b608000181b63e,
   0x1000181b63e000188b348000181b743000181b758000181b767000181b773000188b618000181b77f000181b80600,
   0x10181be53000181b8220001ef01000181b860000181b86e000181b940000181b90d000188bb64000181ba430001,
   0x188bb66000181ba6e000181ba6b000181ba7c000181bb61000181bb620001f02f000181bb7d000181bc280001,
   0x181bc3d000181bc690001f062000188c3030001f07c000181bd30000181bd33000181bd36000181bd4a00018ac712,
   0x1000181bd7e000188c631000188c6310001828401000181be22000181be220001f147000188e538000189c35a0001,
   0x181be62000181be6b0001f163000181bf1a000181bf4d000181bf57000181bf79000181c1010001f23a0001f21c00,
   0x10181c114000188cd54000181c147000181c248000181c24c000181c24e000181c24c000181c27a000181c30e0001,
   0x181c332000181c324000181c32f000181c35e000181c372000181c376000181c410000181c41b000181c45d0001,
   0x181c531000181c554000181c650000188d60c000181c63d000181c57c000181c668000181c703000181c7640001,
   0x188d771000181c822000181c745000181c7290001f42e000181c869000181c87e000181c91d000181c8770001f46c,
   0x1000181ca4f000181ca6c000188e00a000181cb63000181cd78000181cc490001f619000181cd110001f6080001,
   0x1f564000181a312000181a315000181ce00000181cd1c000182812d0001818759000181ce17000181ce1b0001,
   0x181ce21000181ce5e000181ce53000188e7430001f649000181cf7a000181cf05000181d052000181d1050001,
   0x188e86d000181d10e000181d01f000181d2140001f71d000181d242000181d323000181d36a000181d5280001,
   0x188ed23000181d55b0001f818000181d621000188f127000181d6540001f84e000181d672000181d71f000181d73a,
   0x1000181d73b000188f50d000188ba0b000188f57a000181d84e000188f93c000181d93f000181d94d000181d86700,
   0x10181da16000181da3e000181da77000181da41000181da69000181da78000181db05000188fa1e000181da340001,
   0x181dc2f000181dc6e0001fa33000181dd4b000181dd47000188fd51000181db79000181de6e000188fe5e0001,
   0x188ff0e000181df46000181e039000181e01e000181e01b0001fb16000181e04a000181e07d000181e0770001,
   0x181e12d0001888a25000181e2450001898463000181e31c000189872b000181e428000181e435000181e4500001,
   0x1898c08000181e500000181e5150001898e350001899014000181e67a000181e70b0001fd2c000181e7250001fd38,
   0x10001fd38000181e847000181e85c000181e871000181e905000181e94a0001fe1b000181ea2400018998360001,
   0x181ea3e0001899912000181ea70000188c31f000181ec100001899f210001899f38000189a0440001ff7c0001,
   0x1818008000181ed74000189a173000189a172000189a219000189a233000181ee1e000181ee1f000181ee1f0001,
   0x181ee4a0001818039000181ef0b00018180460001818116000189a81d000181f04e000181f10c000181f14c0001,
   0x1818163000189ac26000181f256000189ad1a000189ad45000181f30f000181f36b000181822f000181f4400001,
   0x181f44a000181f44f000189b27c000189b527000189b527000181f56e0001818402000189b72b000181f7460001,
   0x181f7490001818427000189b900000181f9520001818520000181f968000181f963000181fa00000189bf060001,
   0x181fa630001818601000181fb47000181fc02000181fc450001818634000189c428000189c44700018186590001,
   0x189c559000181fe7a000189c63e000181ff15000181ff7a0001828005000189c95a000189ca2300018280600001,
   0x189cb280001828070000188e65f000181875500018281320001828203000181880b000182823e000181b5350001,
   0x189cf27000189cf35000188e713000188e71c000182840100018284040001829f1e000181886b00018285110001,
   0x182850b000182851d000181a53300018285310001828533000182853d0001828566000189d63c00018285650001,
   0x182861d0001828663000182872d0001828623000182873d000182876700018288570001828653000182874a0001,
   0x182874c000182875c000189d836000189da6b000189d9550001818a2b000182897100018289730001828a160001,
   0x189e74a0001828a64000189de2c0001818a5d0001818a61000189df31000189e1520001818a6b0001828c500001,
   0x1828c5c0001828c670001828c690001828d290001828d080001828e0e0001828d620001828e790001828e280001,
   0x1828e6b0001828f060001818b570001828f6100018290010001818b7900018290600001829063000189ec670001,
   0x1829157000182915e0001818c35000182917a0001e93b000189f12e000189f2660001818d3e0001818d470001,
   0x1829520000182956d000182970a0001829855000189f928000182992b00018299410001829a1b0001829a770001,
   0x189fe2f00018890040001829b4b0001829b3c0001829b70000188915e0001829d540001829e3800018a8b520001,
   0x18a8b6d000182a114000182a171000182a21100018a8e2e000182a21b000182a438000182a557000182a5580001,
   0x182a47c000182a779000182a81500018a977a000182ab0b0001819315000182ab3700018a9a7700018193660001,
   0x182ad43000181bb32000182ae2300018aa24500018aa41a000181946e0001819476000182af6000018aa80a0001,
   0x181953200018aa916000182b00b000182b00b000182b02900018aab36000182b1620001819633000182b2290001,
   0x182b327000182b342000182b37e000181974e00018ab630000182b612000182b840000182b97d000181994e0001,
   0x181996d000182ba6700018ac14e000181997800018ac20500018ac40e00018ac511000182bd3b0001819a560001,
   0x182bd79000182bd7e000182be05000182be0f000182be16000182be3b00018acc0000])).toArray

/-- The characters whose decomposition is never undone. -/
def compositionExclusions : Ranges := .ofLines
  [0x18644008c14077d0102005400030023020300817e018766000a000500050005000d000a0002010200090012000a00,
   0x10500050005000d00b6230083a0410002000b0c0204020002010201020883ac10065705]

/-- The first step of a canonical decomposition. -/
def decomposition? (n : Nat) : Option (Nat × Nat) :=
  match lastUpTo? Prod.fst decompositions n with
  | some (c, first, second) => if c = n then some (first, second) else none
  | none => none

/-- The pairs that compose, each with the character it makes, in the order of the pairs. -/
def compositions : Array (Nat × Nat) :=
  let pairs := decompositions.toList.filterMap fun (c, first, second) =>
    if second = 0 || compositionExclusions.has c then none else some (first * 0x200000 + second, c)
  (pairs.mergeSort fun a b => a.1 ≤ b.1).toArray

/-- The character that a pair composes to. -/
def composition? (first second : Nat) : Option Nat :=
  match lastUpTo? Prod.fst compositions (first * 0x200000 + second) with
  | some (key, c) => if key = first * 0x200000 + second then some c else none
  | none => none

end SecretClient.Unicode
