import JavaEdit.Text.Ranges

/-!
# The visible form of a text

A text in double quotes in which every character can be seen: quotes and backslashes are escaped,
the common controls have short forms, and what has no shape of its own (controls, formats,
separators, fillers, unassigned code points, combining marks) is written as a backslash, a `u`
and, in braces, its code point in hexadecimal. The tables are those of Unicode 17.
-/

namespace JavaEdit.Text

/-- Code points of the general categories C and Z above the space, and those with the property
Default_Ignorable_Code_Point, such as the Hangul fillers. -/
def hiddenRanges : Ranges :=
  .ofPacked
   [0x1311a152201802f1311902ca019c64941c0213d02816a17c1d1ce17c169038902f28733c7780416b14f069e02d020183715901aca01d491ff,
    0x160334641311a160301802f131190401861d151e2140401b160301802f0401a04192a6205622413360213030301802f13370413a160332751,
    0x170406c0401e1b401b150443650401a1601b0380402f61b15130403650401a1290380401e42e1d25215042631d242323020325042703192b1,
    0x1181503d912a81242038f4c1e02804d05834d01993f511b0180206138020390602034c3e37b1b411b5190207322181201a03922b0403b1293,
    0x10481918f45c61ba51b41c51b51b15916d1b30401e1b2d1839182f61ba23d01a891711af53b249118c1507a02815020181504a1505a15020,
    0x12c0711f02806e1480202020191714f17118af45c71c15c47f22827d72cf019e2b1d15f11f51b51c13e018a17f21c53b35d1a615b2231d31d,
    0x1393af1b1ba03b491ff01801801801801801801801818391d3679124205e45ff13cad2c1c2d1abb329d1e4a1d4b21e03c132868739281a041,
    0x1717193d2f1d811b11f187804a31c019f23f1a1ed51d718f77951b27d2b3be72f92b5bd18782799de069181af05b06c05c41d811af0188029,
    0x11c180182417171723f02c83298063502c06c51b1f293f1a9b0303020603b461b184d1db15df28c8b6a3381b2decd51b11ff37d0180181871,
    0x102801c0301802801d1a6d75934d34d51b12bf591f34e03f45c43f184d33d1e6a23e2895f5e221e01b925e3441fc491f1280302c03b01d13,
    0x126f181d3583f18961a61b3413e040194306b12d3794d3c43c24a4302c5f1a7199038122305d021718c1a05b072f19192f184f81b6d23018,
    0x1185872b06e51b63a1c607f184d319f18382b3d4d3b2d5b75f481a771f31405b04839f373e24f51b75f66c1c6c6e19a19f181b563b43c13e,
    0x11b71993d601bd3c37301b05021201b04f021201b1a62181184252141311b060301802f131190551b47c51c02805020187d6802b1a2d01c9,
    0x14b1af191ad1b619a1c1ac71993a1c15f11918d1b181d1303f03019121191b1ac1cb7d2f83832813c3b2d51b57b2a1e51b1a18e494f16f2cd,
    0x1599b38d1a601e81cd1ebc1c6b1e21ac3e25a02a63a3ed1b35d51b670304e030751b71a030225d030181981f02f14923e191f05e01a51b1d,
    0x118181a67f2a67a319c5b3a13a41bc38d7b6df2c42e01801b1918f19713f51b01aa31b048618fa3b8d7b1daf8199847ebc192f1f28e91c1cc,
    0x12c1e9719b158193ef7b1ed183815f1e2a1e3856ed23fe7dbf511b61a21e41dc4c8b69d751d2143c21e4cc030180528ffc1ec1c849581ebaf,
    0x10301812a0183ac7548299f28061e1aff14cd15ad01822060503d01801915018a0180201d05131213019801ae28e3a181b81b2d1b2d1f918f,
    0x1501b02120303c053897e19b18d1ca8331b319d5829138e02803050183bf372f0482ff235c3ad5b79f247b28484ff331b11f25e1df2487f46,
    0x12a21fba2b971d361a35d1c3e6f2df194e0280281281b1cd35d49d36b2a060442a01b02050501805120302020202021203040202023252020,
    0x14ec919df1e1ecea11ba9f118cbf3f1abbc9288c1d802ac61b31d1293207a21c21e11f75b94e1a1d331d13f75951b77931d1e231d53bb21e2,
    0x13bcde8d28cdb419d9c2fc918bf]

/-- Marks (general category M) that join the character before them (property Grapheme_Extend). The
two halfwidth sound marks with that property are letters and have a shape of their own. -/
def joiningMarks : Ranges :=
  .ofPacked
   [0x130207b03e11b640575020783f22f5b187c25c422218233901a187b1a1bc3a3f04c32135361ce0292c691a199021212025c49864ac1df1c88,
    0x14021307b03e11c1183226220780405901a01d0207c03f11b218019321207b0252f12d05124507a11c0413f0423151507a1303b11b01a0193,
    0x101e3292513a13125231cf01a4b21a612421d78020203c119a61c18301cb71d6301aa019022305019903e11b01a019330217a13d11c118322,
    0x134911d184f25196932d1b35d69031977302026207b0313bc2701a1521ef04b11ee0225e01a1a301962118913f13e23d31eeb21b880280713,
    0x11a3a74f01e293b12b80613a050404a911a914919237afad11da518db3f1c9029e25fff481ba97f38f140705621c222b91377942041207953,
    0x1318fe12ce05259361223a8f42ae03cb01f9e1f291f1bca04fce9050303df01915b0216132206c06801901d1313518c04d03133306925d02,
    0x153018c4461f01a01d020217a12e7402be03073321c80331902186d11d07f7244d27e0181336a21b1305a1e6f01fc36a1a18f519e14fe418a,
    0x119335591949051332a90531b03ee121848c42330201ce730201db120371ae13c12173303dc121203025301aa038022371ae11f0225220302,
    0x11aa3188028b967c44f89241b2eb991e701abce0382646d11c15bc020411990262120451fb1212632d1ab0252639a0222038f121c5f2351a0,
    0x167bb061180303ec13ff37fd37e05f862c901cd42126328262da91e242f01f0196956e3efc22ad33f6371954418bf2e35d199ca14eadc11c0,
    0x13df389beee61de]

/-- Whether a character is written as its code point. -/
def isHidden (c : Char) : Bool :=
  c.toNat < 32 || (127 ≤ c.toNat && (hiddenRanges.holds c || joiningMarks.holds c))

def visibleChar (c : Char) : List Char :=
  if c == '"' then ['\\', '"']
  else if c == '\\' then ['\\', '\\']
  else if c == '\t' then ['\\', 't']
  else if c == '\n' then ['\\', 'n']
  else if c == '\r' then ['\\', 'r']
  else if c.toNat == 0 then ['\\', '0']
  else if isHidden c then
    ['\\', 'u', Char.ofNat 0x7b] ++ Nat.toDigits 16 c.toNat ++ [Char.ofNat 0x7d]
  else [c]

/-- A text in quotes with every character visible. -/
def visible (s : String) : String :=
  String.ofList ('"' :: s.toList.flatMap visibleChar ++ ['"'])

end JavaEdit.Text
