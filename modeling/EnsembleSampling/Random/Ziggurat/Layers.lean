set_option autoImplicit false

/-!
# Layers under the normal density

The area under the density of the normal distribution, right of zero, is covered
by 256 layers of equal area: the base strip with the tail, and 255 boxes on top of
each other.  A layer is met by an offset of 52 bits.  Below `cut` the point lies
under the density for certain; `width` turns an offset into an abscissa, and
`height` is the density at the outer edge.
-/

namespace EnsembleSampling.Random.Ziggurat

/-- A layer; `width` and `height` are doubles, given by their bits. -/
structure Layer where
  cut : Nat
  width : UInt64
  height : UInt64
  deriving DecidableEq, Repr, Inhabited

/-- The layers, the base strip first. -/
def layers : Array Layer := #[
  ⟨4208095142473578, 0x3ccf493b7815d979, 0x3ff0000000000000⟩,
  ⟨0, 0x3c8b8d0be3fdf6c6, 0x3fef446ac979f087⟩,
  ⟨3387314423973544, 0x3c9250af3c2c5bb4, 0x3feeb7545b6ca915⟩,
  ⟨3838760076542274, 0x3c957cb938443b61, 0x3fee3f11e027f077⟩,
  ⟨4030768804392682, 0x3c9801fce82fa70c, 0x3fedd36fa704de95⟩,
  ⟨4136731738896254, 0x3c9a230c2e4cd0bc, 0x3fed70920657bcf2⟩,
  ⟨4203757248105145, 0x3c9c004d2f3861f7, 0x3fed144978a119dc⟩,
  ⟨4249917568205994, 0x3c9dac2f5a747274, 0x3fecbd33a8a72deb⟩,
  ⟨4283617341590296, 0x3c9f32482d4cd5c3, 0x3fec6a5ecea9787f⟩,
  ⟨4309289223136604, 0x3ca04d32278ebbad, 0x3fec1b1cd9eebaea⟩,
  ⟨4329489775174550, 0x3ca0f5053b025d43, 0x3febceeb4ee1dc82⟩,
  ⟨4345795907393188, 0x3ca192a697413677, 0x3feb85653a8ff552⟩,
  ⟨4359232558744730, 0x3ca227a28f7a1af5, 0x3feb3e3a8234dd10⟩,
  ⟨4370494503737299, 0x3ca2b52e3863d880, 0x3feaf92a3f6ce8a2⟩,
  ⟨4380069246215646, 0x3ca33c3fc05791f5, 0x3feab5fef17a2504⟩,
  ⟨4388308869042394, 0x3ca3bd9ec1a2b12f, 0x3fea748bd550c9e1⟩,
  ⟨4395473957549321, 0x3ca439ef8dff9b55, 0x3fea34aafdf5af0f⟩,
  ⟨4401761481783924, 0x3ca4b1bb363dfea7, 0x3fe9f63bee651fd8⟩,
  ⟨4407323076021240, 0x3ca52575621ad374, 0x3fe9b9228d240681⟩,
  ⟨4412277362218204, 0x3ca59580a707ce96, 0x3fe97d4657617ac1⟩,
  ⟨4416718463613199, 0x3ca60231cfd97eea, 0x3fe94291c21b7a47⟩,
  ⟨4420722014516422, 0x3ca66bd261a37c3d, 0x3fe908f1bd31714f⟩,
  ⟨4424349484777079, 0x3ca6d2a292000570, 0x3fe8d0554fe60aa8⟩,
  ⟨4427651345409294, 0x3ca736dad346f8a6, 0x3fe898ad48badf02⟩,
  ⟨4430669422005229, 0x3ca798ad10b32a77, 0x3fe861ebfc37bcac⟩,
  ⟨4433438668975191, 0x3ca7f845ad46f543, 0x3fe82c050f56cf6e⟩,
  ⟨4435988524278344, 0x3ca855cc53430a77, 0x3fe7f6ed4b20e2cb⟩,
  ⟨4438343955930065, 0x3ca8b1649e7b769a, 0x3fe7c29a779c6858⟩,
  ⟨4440526279077425, 0x3ca90b2ea94ecf98, 0x3fe78f033ca0b0d5⟩,
  ⟨4442553800234660, 0x3ca96347822c1eea, 0x3fe75c1f0770d856⟩,
  ⟨4444442329865861, 0x3ca9b9c98e38c546, 0x3fe729e5f43f6d12⟩,
  ⟨4446205593658138, 0x3caa0eccdca4a72c, 0x3fe6f850baea7aee⟩,
  ⟨4447855565093316, 0x3caa62676d77cd59, 0x3fe6c7589e635a89⟩,
  ⟨4449402736340121, 0x3caab4ad6e101630, 0x3fe696f75e513b2a⟩,
  ⟨4450856340408624, 0x3cab05b16d136c9c, 0x3fe667272a92e323⟩,
  ⟨4452224534496486, 0x3cab558487427a29, 0x3fe637e298550c18⟩,
  ⟨4453514552210512, 0x3caba4368e529f3a, 0x3fe6092498802665⟩,
  ⟨4454732830656798, 0x3cabf1d62abf8232, 0x3fe5dae86f4aff6a⟩,
  ⟨4455885117109368, 0x3cac3e70f9594ef3, 0x3fe5ad29acc85c89⟩,
  ⟨4456976558985043, 0x3cac8a13a5323b61, 0x3fe57fe4264c8d8f⟩,
  ⟨4458011780094444, 0x3cacd4c9fe72268b, 0x3fe55313f08d9e46⟩,
  ⟨4458994945550386, 0x3cad1e9f0e80b748, 0x3fe526b55a656cd5⟩,
  ⟨4459929817254120, 0x3cad679d29e41f10, 0x3fe4fac4e820b667⟩,
  ⟨4460819801517196, 0x3cadafce0023b8c3, 0x3fe4cf3f4f494ec0⟩,
  ⟨4461667990089170, 0x3cadf73aa9f17653, 0x3fe4a42172dc5278⟩,
  ⟨4462477195632268, 0x3cae3debb5d2edfe, 0x3fe479685fdf5012⟩,
  ⟨4463249982500384, 0x3cae83e9337a6f00, 0x3fe44f114a493679⟩,
  ⟨4463988693531856, 0x3caec93abdf982ce, 0x3fe425198a355fe3⟩,
  ⟨4464695473445501, 0x3caf0de784f06226, 0x3fe3fb7e99585b82⟩,
  ⟨4465372289331869, 0x3caf51f654d8f688, 0x3fe3d23e10af31a3⟩,
  ⟨4466020948651920, 0x3caf956d9e87d7ae, 0x3fe3a955a662cd0e⟩,
  ⟨4466643115089764, 0x3cafd8537dfa2eac, 0x3fe380c32bda00d5⟩,
  ⟨4467240322552142, 0x3cb00d56e04234ec, 0x3fe358848bf550e9⟩,
  ⟨4467813987562542, 0x3cb02e40f5398f9a, 0x3fe33097c9703a35⟩,
  ⟨4468365420260672, 0x3cb04eea9e16a5fc, 0x3fe308fafd6438ef⟩,
  ⟨4468895834186994, 0x3cb06f565b72a010, 0x3fe2e1ac55ea3bee⟩,
  ⟨4469406355006040, 0x3cb08f869071f40b, 0x3fe2baaa14d7954a⟩,
  ⟨4469898028300364, 0x3cb0af7d84bc6113, 0x3fe293f28e93cd15⟩,
  ⟨4470371826548633, 0x3cb0cf3d664bcc7f, 0x3fe26d84290504ed⟩,
  ⟨4470828655385770, 0x3cb0eec84b16086b, 0x3fe2475d5a90db84⟩,
  ⟨4471269359229841, 0x3cb10e20329515ee, 0x3fe2217ca92ff7f2⟩,
  ⟨4471694726349190, 0x3cb12d4707310fbe, 0x3fe1fbe0a9929620⟩,
  ⟨4472105493433674, 0x3cb14c3e9f8e9141, 0x3fe1d687fe549969⟩,
  ⟨4472502349725738, 0x3cb16b08bfc4201e, 0x3fe1b171573fd111⟩,
  ⟨4472885940759935, 0x3cb189a71a78da34, 0x3fe18c9b709b3c50⟩,
  ⟨4473256871753524, 0x3cb1a81b51ee6d88, 0x3fe16805128639da⟩,
  ⟨4473615710685532, 0x3cb1c666f8f82acb, 0x3fe143ad105ea99c⟩,
  ⟨4473962991097124, 0x3cb1e48b93e0d42e, 0x3fe11f9248311f38⟩,
  ⟨4474299214642296, 0x3cb2028a9940a09f, 0x3fe0fbb3a2325913⟩,
  ⟨4474624853414418, 0x3cb2206572c4c6e9, 0x3fe0d810104142a0⟩,
  ⟨4474940352071305, 0x3cb23e1d7de9c31f, 0x3fe0b4a68d70d9ae⟩,
  ⟨4475246129778808, 0x3cb25bb40ca96bfb, 0x3fe091761d995d81⟩,
  ⟨4475542581990776, 0x3cb2792a661dd37f, 0x3fe06e7dccf03c36⟩,
  ⟨4475830082081194, 0x3cb29681c719d71b, 0x3fe04bbcafa63f2e⟩,
  ⟨4476108982842610, 0x3cb2b3bb62b82eda, 0x3fe02931e18b822a⟩,
  ⟨4476379617863426, 0x3cb2d0d862e1b853, 0x3fe006dc85b8cac4⟩,
  ⟨4476642302795321, 0x3cb2edd9e8cba98e, 0x3fdfc9778c7bbda1⟩,
  ⟨4476897336520866, 0x3cb30ac10d6e48d7, 0x3fdf859da7a900ca⟩,
  ⟨4477145002230339, 0x3cb3278ee1f4b930, 0x3fdf4229cb2f7af3⟩,
  ⟨4477385568415884, 0x3cb3444470265ea1, 0x3fdeff1a717e8f95⟩,
  ⟨4477619289790266, 0x3cb360e2baca52d5, 0x3fdebc6e20bd1f54⟩,
  ⟨4477846408136804, 0x3cb37d6abe05586a, 0x3fde7a236a4ec3c5⟩,
  ⟨4478067153096380, 0x3cb399dd6fb2b264, 0x3fde3838ea5f9b85⟩,
  ⟨4478281742896886, 0x3cb3b63bbfb83d03, 0x3fddf6ad47763a09⟩,
  ⟨4478490385029917, 0x3cb3d28698561de0, 0x3fddb57f320b56b1⟩,
  ⟨4478693276879082, 0x3cb3eebede725a83, 0x3fdd74ad6426de33⟩,
  ⟨4478890606303906, 0x3cb40ae571e09e74, 0x3fdd3436a1021080⟩,
  ⟨4479082552182886, 0x3cb426fb2da6745d, 0x3fdcf419b4ae5b6d⟩,
  ⟨4479269284918997, 0x3cb44300e83c30a4, 0x3fdcb45573c0a848⟩,
  ⟨4479450966910588, 0x3cb45ef773cac75d, 0x3fdc74e8bb00d7c7⟩,
  ⟨4479627752990372, 0x3cb47adf9e66c336, 0x3fdc35d26f1d2cb8⟩,
  ⟨4479799790834988, 0x3cb496ba32488f2f, 0x3fdbf7117c616a17⟩,
  ⟨4479967221347354, 0x3cb4b287f602415d, 0x3fdbb8a4d6716d91⟩,
  ⟨4480130179013872, 0x3cb4ce49acb311dc, 0x3fdb7a8b7807131b⟩,
  ⟨4480288792238368, 0x3cb4ea001638a605, 0x3fdb3cc462b331ca⟩,
  ⟨4480443183654460, 0x3cb505abef5e5562, 0x3fdaff4e9ea18552⟩,
  ⟨4480593470417939, 0x3cb5214df20a8b5a, 0x3fdac2293a5f5a9e⟩,
  ⟨4480739764480586, 0x3cb53ce6d56a664f, 0x3fda85534aa4d880⟩,
  ⟨4480882172846772, 0x3cb558774e1bb2c8, 0x3fda48cbea20c04d⟩,
  ⟨4481020797814010, 0x3cb574000e555f78, 0x3fda0c923946843e⟩,
  ⟨4481155737198612, 0x3cb58f81c60e8514, 0x3fd9d0a55e1e93df⟩,
  ⟨4481287084547452, 0x3cb5aafd23241b59, 0x3fd995048418c0c6⟩,
  ⟨4481414929336784, 0x3cb5c672d17d733d, 0x3fd959aedbe09f93⟩,
  ⟨4481539357158974, 0x3cb5e1e37b2f8cd3, 0x3fd91ea39b33cb17⟩,
  ⟨4481660449897960, 0x3cb5fd4fc89f5e38, 0x3fd8e3e1fcb9f115⟩,
  ⟨4481778285894165, 0x3cb618b860a31fc3, 0x3fd8a9693fde9188⟩,
  ⟨4481892940099539, 0x3cb6341de8a2b0a2, 0x3fd86f38a8ac5ab6⟩,
  ⟨4482004484223382, 0x3cb64f8104b7260b, 0x3fd8354f7faa0dd9⟩,
  ⟨4482112986869492, 0x3cb66ae257c99672, 0x3fd7fbad11b8d911⟩,
  ⟨4482218513665204, 0x3cb6864283b13137, 0x3fd7c250aff414b0⟩,
  ⟨4482321127382802, 0x3cb6a1a22950b2b1, 0x3fd78939af9252eb⟩,
  ⟨4482420888053758, 0x3cb6bd01e8b343bb, 0x3fd7506769c7b1ed⟩,
  ⟨4482517853076245, 0x3cb6d8626128d352, 0x3fd717d93ba9614c⟩,
  ⟨4482612077316275, 0x3cb6f3c43161f854, 0x3fd6df8e86124caa⟩,
  ⟨4482703613202871, 0x3cb70f27f78b68eb, 0x3fd6a786ad88de21⟩,
  ⟨4482792510817576, 0x3cb72a8e516914c6, 0x3fd66fc11a25cbe2⟩,
  ⟨4482878817978627, 0x3cb745f7dc70eedc, 0x3fd6383d377be515⟩,
  ⟨4482962580320076, 0x3cb7616535e5731f, 0x3fd600fa7480d2c8⟩,
  ⟨4483043841366126, 0x3cb77cd6faeff449, 0x3fd5c9f84376c244⟩,
  ⟨4483122642600925, 0x3cb7984dc8babd93, 0x3fd5933619d6eebe⟩,
  ⟨4483199023534056, 0x3cb7b3ca3c8b1409, 0x3fd55cb3703d0100⟩,
  ⟨4483273021761922, 0x3cb7cf4cf3db22fb, 0x3fd5266fc2533bed⟩,
  ⟨4483344673025224, 0x3cb7ead68c73dee7, 0x3fd4f06a8ebf6d92⟩,
  ⟨4483414011262724, 0x3cb80667a486ea1f, 0x3fd4baa357109ca2⟩,
  ⟨4483481068661428, 0x3cb82200dac88676, 0x3fd485199fad6ad4⟩,
  ⟨4483545875703378, 0x3cb83da2ce899f15, 0x3fd44fccefc324fe⟩,
  ⟨4483608461209170, 0x3cb8594e1fd1f5bd, 0x3fd41abcd1357a19⟩,
  ⟨4483668852378323, 0x3cb875036f7a7ec5, 0x3fd3e5e8d08ed2db⟩,
  ⟨4483727074826624, 0x3cb890c35f47f72d, 0x3fd3b1507cf143ae⟩,
  ⟨4483783152620564, 0x3cb8ac8e9205c043, 0x3fd37cf368081379⟩,
  ⟨4483837108308932, 0x3cb8c865aba10c9c, 0x3fd348d125f9d19e⟩,
  ⟨4483888962951686, 0x3cb8e44951446a27, 0x3fd314e94d5af62f⟩,
  ⟨4483938736146144, 0x3cb9003a2973b58f, 0x3fd2e13b77210766⟩,
  ⟨4483986446050596, 0x3cb91c38dc288347, 0x3fd2adc73e963fdd⟩,
  ⟨4484032109405372, 0x3cb9384612ef0afc, 0x3fd27a8c414db11e⟩,
  ⟨4484075741551420, 0x3cb954627903a28a, 0x3fd2478a1f17de89⟩,
  ⟨4484117356446452, 0x3cb9708ebb70d5ee, 0x3fd214c079f7cc9e⟩,
  ⟨4484156966678662, 0x3cb98ccb892e2a31, 0x3fd1e22ef6188116⟩,
  ⟨4484194583478081, 0x3cb9a919933f99bf, 0x3fd1afd539c2f050⟩,
  ⟨4484230216725550, 0x3cb9c5798cd5d92c, 0x3fd17db2ed5454e8⟩,
  ⟨4484263874959345, 0x3cb9e1ec2b6f7411, 0x3fd14bc7bb34ee67⟩,
  ⟨4484295565379450, 0x3cb9fe7226fad24a, 0x3fd11a134fcf2423⟩,
  ⟨4484325293849474, 0x3cba1b0c39f93692, 0x3fd0e895598709c4⟩,
  ⟨4484353064896186, 0x3cba37bb21a2c85b, 0x3fd0b74d88b242da⟩,
  ⟨4484378881706674, 0x3cba547f9e0bbb88, 0x3fd0863b8f904336⟩,
  ⟨4484402746123075, 0x3cba715a724aa9a4, 0x3fd0555f2242e9d9⟩,
  ⟨4484424658634833, 0x3cba8e4c64a0313d, 0x3fd024b7f6c7747e⟩,
  ⟨4484444618368474, 0x3cbaab563e9ff108, 0x3fcfe88b89df93c5⟩,
  ⟨4484462623074794, 0x3cbac878cd5af5ce, 0x3fcf88108cb83235⟩,
  ⟨4484478669113436, 0x3cbae5b4e18bb336, 0x3fcf27fe6ce998d2⟩,
  ⟨4484492751434740, 0x3cbb030b4fc3a11a, 0x3fcec854a4c99c44⟩,
  ⟨4484504863558830, 0x3cbb207cf09a985b, 0x3fce6912b2283cdd⟩,
  ⟨4484514997551788, 0x3cbb3e0aa0e00c00, 0x3fce0a3816457184⟩,
  ⟨4484523143998833, 0x3cbb5bb541ce3d03, 0x3fcdabc455c7900a⟩,
  ⟨4484529291974394, 0x3cbb797db93f8927, 0x3fcd4db6f8b2514f⟩,
  ⟨4484533429008906, 0x3cbb9764f1e5f73c, 0x3fccf00f8a5e6fcc⟩,
  ⟨4484535541052219, 0x3cbbb56bdb85256e, 0x3fcc92cd9971df53⟩,
  ⟨4484535612433424, 0x3cbbd3936b2ec0a2, 0x3fcc35f0b7d89d47⟩,
  ⟨4484533625816926, 0x3cbbf1dc9b81ae83, 0x3fcbd9787abe18a1⟩,
  ⟨4484529562154580, 0x3cbc10486cec16a0, 0x3fcb7d647a8731aa⟩,
  ⟨4484523400633636, 0x3cbc2ed7e5f07a2d, 0x3fcb21b452ccd13a⟩,
  ⟨4484515118620291, 0x3cbc4d8c136e0d1c, 0x3fcac667a2571807⟩,
  ⟨4484504691598554, 0x3cbc6c6608ec8705, 0x3fca6b7e0b19267e⟩,
  ⟨4484492093104164, 0x3cbc8b66e0eba617, 0x3fca10f7322d7e3d⟩,
  ⟨4484477294653230, 0x3cbcaa8fbd36a2ab, 0x3fc9b6d2bfd2fe5a⟩,
  ⟨4484460265665252, 0x3cbcc9e1c73bd690, 0x3fc95d105f6a7c27⟩,
  ⟨4484440973380154, 0x3cbce95e3068e037, 0x3fc903afbf74fa69⟩,
  ⟨4484419382768918, 0x3cbd0906328b8f6e, 0x3fc8aab09192815b⟩,
  ⟨4484395456437370, 0x3cbd28db1037ef20, 0x3fc852128a819a38⟩,
  ⟨4484369154522621, 0x3cbd48de1533c647, 0x3fc7f9d5621f7175⟩,
  ⟨4484340434581640, 0x3cbd691096e7f123, 0x3fc7a1f8d368a323⟩,
  ⟨4484309251471359, 0x3cbd8973f4d7fba5, 0x3fc74a7c9c7ab5a6⟩,
  ⟨4484275557219678, 0x3cbdaa0999206e70, 0x3fc6f3607e964716⟩,
  ⟨4484239300886654, 0x3cbdcad2f8fc490e, 0x3fc69ca43e21f25c⟩,
  ⟨4484200428415112, 0x3cbdebd195522e37, 0x3fc64647a2adf19c⟩,
  ⟨4484158882469814, 0x3cbe0d06fb49d21c, 0x3fc5f04a76f883f9⟩,
  ⟨4484114602264271, 0x3cbe2e74c4ea46f6, 0x3fc59aac88f31d6c⟩,
  ⟨4484067523374160, 0x3cbe501c99c1d188, 0x3fc5456da9c86835⟩,
  ⟨4484017577536216, 0x3cbe72002f97fe25, 0x3fc4f08dade31fc1⟩,
  ⟨4483964692431365, 0x3cbe94214b2abf0a, 0x3fc49c0c6cf5ce2d⟩,
  ⟨4483908791450714, 0x3cbeb681c0f76f08, 0x3fc447e9c20375d5⟩,
  ⟨4483849793442887, 0x3cbed9237610a73a, 0x3fc3f4258b6931ae⟩,
  ⟨4483787612441036, 0x3cbefc086101eca9, 0x3fc3a0bfaae8d7ee⟩,
  ⟨4483722157367660, 0x3cbf1f328ac25321, 0x3fc34db805b4ab88⟩,
  ⟨4483653331715198, 0x3cbf42a40fb74d6d, 0x3fc2fb0e847c2a65⟩,
  ⟨4483581033200083, 0x3cbf665f20c90168, 0x3fc2a8c3137a071a⟩,
  ⟨4483505153387764, 0x3cbf8a6604899782, 0x3fc256d5a2835eb7⟩,
  ⟨4483425577285833, 0x3cbfaebb187122bf, 0x3fc2054625183c34⟩,
  ⟨4483342182902157, 0x3cbfd360d22fe785, 0x3fc1b41492757d42⟩,
  ⟨4483254840764470, 0x3cbff859c118f60b, 0x3fc16340e5a82d63⟩,
  ⟨4483163413397547, 0x3cc00ed447d3a075, 0x3fc112cb1da26eb9⟩,
  ⟨4483067754753536, 0x3cc021a8028fc947, 0x3fc0c2b33d5209ba⟩,
  ⟨4482967709590562, 0x3cc034a983a902ab, 0x3fc072f94bb8bf85⟩,
  ⟨4482863112794072, 0x3cc047da4e3ef5c7, 0x3fc0239d54067d2a⟩,
  ⟨4482753788634692, 0x3cc05b3bf6adb37e, 0x3fbfa93ecb6b222c⟩,
  ⟨4482639549955636, 0x3cc06ed023a72668, 0x3fbf0bff29520e1c⟩,
  ⟨4482520197281720, 0x3cc082988f632e17, 0x3fbe6f7bf29aa54b⟩,
  ⟨4482395517841076, 0x3cc0969708e8a254, 0x3fbdd3b56176e88f⟩,
  ⟨4482265284489409, 0x3cc0aacd7571c0c4, 0x3fbd38abb9bd91e5⟩,
  ⟨4482129254525304, 0x3cc0bf3dd1eed448, 0x3fbc9e5f493b740a⟩,
  ⟨4481987168383486, 0x3cc0d3ea34aa3d30, 0x3fbc04d0680b1015⟩,
  ⟨4481838748191074, 0x3cc0e8d4cf116593, 0x3fbb6bff78f2e233⟩,
  ⟨4481683696169781, 0x3cc0fdffefa69fb6, 0x3fbad3ece9caf633⟩,
  ⟨4481521692864464, 0x3cc1136e04207041, 0x3fba3c9933ea6286⟩,
  ⟨4481352395175570, 0x3cc129219bbb5d35, 0x3fb9a604dc9d5b19⟩,
  ⟨4481175434169564, 0x3cc13f1d69c4096d, 0x3fb9103075a4a0ab⟩,
  ⟨4480990412637506, 0x3cc1556448602e3b, 0x3fb87b1c9dbf2852⟩,
  ⟨4480796902367134, 0x3cc16bf93b9deef3, 0x3fb7e6ca013eefd6⟩,
  ⟨4480594441088331, 0x3cc182df74d21261, 0x3fb753395aaa1176⟩,
  ⟨4480382529045225, 0x3cc19a1a564eebac, 0x3fb6c06b73694a4c⟩,
  ⟨4480160625140311, 0x3cc1b1ad777f2f8e, 0x3fb62e6124854d18⟩,
  ⟨4479928142586662, 0x3cc1c99ca971a694, 0x3fb59d1b577466a4⟩,
  ⟨4479684443993061, 0x3cc1e1ebfbe4ae39, 0x3fb50c9b06fa2bae⟩,
  ⟨4479428835793398, 0x3cc1fa9fc2e2d901, 0x3fb47ce1401b2213⟩,
  ⟨4479160561915451, 0x3cc213bc9d04cc81, 0x3fb3edef23269a86⟩,
  ⟨4478878796564388, 0x3cc22d477a6fd3ee, 0x3fb35fc5e4d93e70⟩,
  ⟨4478582635972392, 0x3cc24745a4ac9c24, 0x3fb2d266cf9b3111⟩,
  ⟨4478271088936406, 0x3cc261bcc77658e0, 0x3fb245d344dd0d91⟩,
  ⟨4477943065929958, 0x3cc27cb2faa8592e, 0x3fb1ba0cbe97897d⟩,
  ⟨4477597366530538, 0x3cc2982ecd770e78, 0x3fb12f14d0f2179d⟩,
  ⟨4477232664848704, 0x3cc2b437532a0a52, 0x3fb0a4ed2c159625⟩,
  ⟨4476847492576192, 0x3cc2d0d43196db97, 0x3fb01b979e30e497⟩,
  ⟨4476440219183781, 0x3cc2ee0db1a978f5, 0x3faf262c2b6c6e35⟩,
  ⟨4476009028690434, 0x3cc30becd256aeee, 0x3fae16d547b25181⟩,
  ⟨4475551892286424, 0x3cc32a7b5e68a4a3, 0x3fad092efeadf162⟩,
  ⟨4475066535915646, 0x3cc349c405ae12a3, 0x3fabfd3e0f282a2c⟩,
  ⟨4474550401693506, 0x3cc369d27a33a840, 0x3faaf30790385f70⟩,
  ⟨4474000601739904, 0x3cc38ab39256410a, 0x3fa9ea90f9295563⟩,
  ⟨4473413862618200, 0x3cc3ac7570ae88fa, 0x3fa8e3e02a68b5ab⟩,
  ⟨4472786458058295, 0x3cc3cf27b31704a6, 0x3fa7defb77af271e⟩,
  ⟨4472114126959004, 0x3cc3f2dbaa60f475, 0x3fa6dbe9b398d064⟩,
  ⟨4471391972746494, 0x3cc417a49cb9e5da, 0x3fa5dab23cf2add4⟩,
  ⟨4470614338917719, 0x3cc43d9815545e94, 0x3fa4db5d0e11275d⟩,
  ⟨4469774653883156, 0x3cc464ce44a73a15, 0x3fa3ddf2ce98eecb⟩,
  ⟨4468865235838896, 0x3cc48d62759c43bc, 0x3fa2e27ce83df497⟩,
  ⟨4467877045039530, 0x3cc4b7739d6b5a27, 0x3fa1e9059f1f6abc⟩,
  ⟨4466799366045354, 0x3cc4e3250dcd8902, 0x3fa0f1982e968011⟩,
  ⟨4465619395558397, 0x3cc5109f53e9ac41, 0x3f9ff881d718a5c4⟩,
  ⟨4464321701199635, 0x3cc54011523a7e42, 0x3f9e121adb828c75⟩,
  ⟨4462887501169282, 0x3cc571b1a94ae41b, 0x3f9c301983cd091a⟩,
  ⟨4461293691124341, 0x3cc5a5c08b718dd9, 0x3f9a529f4e22ebf8⟩,
  ⟨4459511507635972, 0x3cc5dc8a243ad0fe, 0x3f9879d1b600c10a⟩,
  ⟨4457504658253067, 0x3cc61669cf861e4c, 0x3f96a5daf40bbf82⟩,
  ⟨4455226650325010, 0x3cc653ce7b006aea, 0x3f94d6eaf2fbb064⟩,
  ⟨4452616884242348, 0x3cc69540be9fe5c3, 0x3f930d388dab5e13⟩,
  ⟨4449594783440798, 0x3cc6db6b8d09e232, 0x3f91490334603012⟩,
  ⟨4446050695647666, 0x3cc72728f05f7a34, 0x3f8f152a4f72dd49⟩,
  ⟨4441831266659618, 0x3cc7799556090673, 0x3f8ba48d274f8fac⟩,
  ⟨4436714892174061, 0x3cc7d42df4d6ce8c, 0x3f8841040d8da478⟩,
  ⟨4430368316897338, 0x3cc839030529f234, 0x3f84eb96421acfe0⟩,
  ⟨4422264825074740, 0x3cc8ab0fbfaa7c14, 0x3f81a59229952f92⟩,
  ⟨4411517007702132, 0x3cc92ee0946f4496, 0x3f7ce160f8ec6837⟩,
  ⟨4396496531309976, 0x3cc9cbee014057ab, 0x3f769ea8d90cb85d⟩,
  ⟨4373832704204284, 0x3cca8fdc7894775a, 0x3f708a1f03b0b1fd⟩,
  ⟨4335125104963628, 0x3ccb981f3878fdb1, 0x3f655f9f43c1b067⟩,
  ⟨4251099761679434, 0x3ccd3bb48209ad33, 0x3f54a605b6b9f70f⟩]

/-- Abscissa at which the tail begins. -/
def tailStart : Float := 3.6541528853610088

end EnsembleSampling.Random.Ziggurat
