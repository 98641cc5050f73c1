import JavaEdit.Text.Ranges

/-!
# Letters and numbers

The characters that names are made of: letters have the Unicode property Alphabetic, numbers one
of the general categories Nd, Nl and No. The tables are those of Unicode 17.
-/

namespace JavaEdit.Text

/-- Alphabetic above the ASCII range. -/
def wideLetters : Ranges :=
  .ofPacked
   [0x12575721cd1f626f61a3e353a19021212021d58587034d22cd1929a21aa22b2022207023312293e01af0201841f1b579923e22e60501b02da,
    0x1315522501b11d4215019021313743402622d313722a1e1e5221f219b7641b1b5919018622f61a18382c2a32f60511a48391cc1e5f290321b,
    0x151b4241412021432245212901e421511a1313744212622d313722532e3280412221844212622d22218221c52a0231805131545121212622d,
    0x10251963021822f42922252f4183602222273582221c1d21e3226119222274421922e2227233d3312221192222741f22e2221c59070422244,
    0x132026332483325833202633259c25a306024d331b7f2943026e18c4b21f52a54b2718804931f070243222a2022f2420216c0766791e12b72,
    0x16f3955b1c433d381851b23e1b18d65a181b818c0501f2a36b1d12221c1d2b1d2c1c2b181a419a639228319db4531ad291f4e18a3327821e3,
    0x1334622402626c33e202020273534d3534ad1c492c2ff604125235a235a61a34b1b22f6e1f1a25b1b33596c721e26b6a21c13806b2b37e53b,
    0x10683f26262626262626261a2e290186f306024d1d14373cc3caf6b1cde582a0546331a23202020744021930501ce1c2901e01ed62261c55,
    0x10218b1d6b394822c2d1a931ce318581e84765e2d11b1f449c35d18c5ba9c1891ceff18891f693f2a1bd25a6321b92271ad543418183a27ae,
    0x164f1d935dd28c8d6852e1d2decb2e1fa71d25a26261a535351c331f3239020218c42e2b1d1a6e241b1f290281b26a43c1e4a6481b220455d,
    0x15a63d1e3f686843c49c6c18e1fa4b1d31e2122a23921b4c235353541b81c397394d28e241ed1b596d37f2b5da4a1db2121202421c21b641d,
    0x11b2d1b122a18a3e1a2e1b2e304125b203518e18259253971b2d1a4ee1d6b412621e21a212621e21a1d6b194f54b54b2b2bd5b42754b33d6,
    0x15f295b2d1901b3c426b5291412593fb2e6043b4b4f1e6a1e6a781981df291e2a1b2d1b6d3c3b274c3c43c5b3c22276123189176f4f39739,
    0x1193d6607041313744212622d3137233878181921e2320267f3703492294c0201b11a327f1a044a1932a6a38381e01a781b45c18d1a2e3c2c,
    0x1371be3313123d21273037487f1d8782fa62e1d33a198036d7c04027e4b53a636d2f902131893f22d32221895d0204123203021924d20302,
    0x101e824582281a2e48d5b380232124c21253913022212045b212619a1d22d33d6a02625c21848481b971d81982b0618f2a1936a3c1202535d,
    0x178519a5d38338497f3ac5c6e92a62c483295f2b3d2a19e2a3e1818f83baa5e1dafa198e67eba3a52a28df281c8599d38b2a1de1cf1eb91a8,
    0x132188262021b23313031218e21ac1bdca0519181841c61da4c8d69b1931f0323e0284ca21262328ffe1ea1ca3f5a1ebad1a61d0211892818,
    0x1033d3cd3b7cd5b2b3d58a02961b5c1e904a7d642126328263ae573e3ced723823e23823e23823e23823e23823835ab2640242323b26273,
    0x12824226282192023232623302120202020203021222020205070202321920302123a232aed040418b7c38c21e2123263c91192d23e3a8,
    0x128cd9619d9a2fcb18bd4ecb19dd281ece831ba9d318cbd491abbbf79ef3973973919ed]

/-- The general categories Nd, Nl and No above the ASCII range. -/
def wideNumbers : Ranges :=
  .ofPacked
   [0x11918f1949d2b18f191ef191c9191de2a1861d9191d8619191ec1c1df53191ef191ef191dd55191ef196bd1938f1928f192eca230612ea,
    0x121f183a01c9a02dda3d19ef2d19f7b1baf436a38f19754028af1971928f191af192ef197192ce1a289194dd192f197193e821dea2b1ba8,
    0x11939b428f01903e34d3a5ae12a781d5c7de1959caf196af191af192f1938f194f192bb5589192fd1979dc91e5819491e273f1929b35b8,
    0x1193fc2b18192a9197d192893d28f61e935b192bf3e4af1971969559b65a73971d9419c23f16d181895d31f312c952f419c185863a71edf,
    0x119189f621928f191af194ccf193eb8a1de28dc2c1cf195cf196f1918f193cc3c1af191aaf191be2a6cd1b19d2b7191cf195ef191ef195af,
    0x1195bcc1c1f8b1e25c19d32227a1cb819289181b9d193f8197ef196cf194d896929ae381dd2b1d2b2f8f195ebfa25be2e48f]

def isLetter (c : Char) : Bool :=
  if c.toNat < 128 then c.isAlpha else wideLetters.holds c

/-- Whether a character is alphabetic or numeric. -/
def isLetterOrNumber (c : Char) : Bool :=
  if c.toNat < 128 then c.isAlphanum else wideLetters.holds c || wideNumbers.holds c

end JavaEdit.Text
