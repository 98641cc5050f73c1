import JavaEdit.Text.Ranges

/-!
# Letter case

Upper and lower case of whole texts, by the full case mappings of Unicode: one character may
become several, and a capital sigma at the end of a word becomes a final sigma. The texts may hold
any character, so the mappings are tables, those of Unicode 17; a table of single mappings is a
list of runs `(first, last, step, offset)`.
-/

namespace JavaEdit.Text

/-- Characters from `first` to `last` in steps of `step` are moved by `offset`. -/
abbrev CaseRuns := List (Nat × Nat × Nat × Int)

def CaseRuns.image? (runs : CaseRuns) (code : Nat) : Option Nat :=
  (runs.find? fun (first, last, step, _) =>
    first ≤ code && code ≤ last && (code - first) % step == 0).map
      fun (_, _, _, offset) => (code + offset : Int).toNat

/-- Runs that have step and offset in common. -/
def CaseRuns.ofGroup : Nat × Int × Ranges → CaseRuns
  | (step, offset, ranges) => ranges.map fun (first, last) => (first, last, step, offset)

def CaseRuns.single : Nat × Int → Nat × Nat × Nat × Int
  | (code, offset) => (code, code, 1, offset)

/-- Single upper case mappings above the ASCII range. -/
def upperRuns : CaseRuns :=
  [(1, -32, .ofPacked [0x13f5ae893f5cfb2d78ae391fdbea3f1cd182281aeb622e3c8]),
   (2, -1, .ofPacked [0x15ef01bdbb1be31c36c1a481ce030192e1ca0424ca185060192844e403032831e303030180403240305034180706040325435c31e3445e489,
    0x103b1e3251e1c2a4250518321b7c41c2983a2c5c7cd9e052191ca1b03074705bbd01a8d1be1c2ac]),
   (1, -2, .ofPacked [0x104f0303078e]),
   (1, -218, .ofPacked [0x1050301a88]),
   (1, 8, .ofPacked [0x111f13f119973b51971971b51971fc88]),
   (1, -7264, .ofPacked [0x106024d2ec88]),
   (1, -39, .ofPacked [0x112621e21a28aeaf])].flatMap CaseRuns.ofGroup ++
  [(181, 743), (255, 121), (305, -232), (383, -300), (384, 195), (405, 97), (410, 163), (411, 42561), (414, 130),
   (447, 56), (477, -79), (592, 10783), (593, 10780), (594, 10782), (595, -210), (596, -206), (608, -205), (601, -202),
   (603, -203), (604, 42319), (609, 42315), (611, -207), (612, 42343), (613, 42280), (614, 42308), (618, 42308),
   (616, -209), (617, -211), (623, -211), (619, 10743), (620, 42305), (625, 10749), (626, -213), (629, -214),
   (637, 10727), (642, 42307), (647, 42282), (649, -69), (652, -71), (658, -219), (669, 42261), (670, 42258),
   (837, 84), (940, -38), (962, -31), (972, -64), (976, -62), (977, -57), (981, -47), (982, -54), (983, -8),
   (1008, -86), (1009, -80), (1010, 7), (8165, 7), (1011, -116), (1013, -96), (1231, -15), (7296, -6254),
   (7297, -6253), (7298, -6244), (7301, -6243), (7302, -6236), (7303, -6181), (7304, 35266), (7545, 35332),
   (7549, 3814), (7566, 35384), (7835, -59), (8126, -7205), (8526, -28), (11365, -10795), (11366, -10792), (42900, 48),
   (43859, -928)].map CaseRuns.single ++
  [(891, 893, 1, 130), (575, 576, 1, 10815), (598, 599, 1, -205), (650, 651, 1, -217), (941, 943, 1, -37),
   (68800, 68850, 1, -64), (973, 974, 1, -63), (5112, 5117, 1, -8), (1104, 1119, 1, -80), (1377, 1414, 1, -48),
   (11312, 11359, 1, -48), (4304, 4346, 1, 3008), (4349, 4351, 1, 3008), (7299, 7300, 1, -6242), (8017, 8023, 2, 8),
   (8048, 8049, 1, 74), (8050, 8053, 1, 86), (8054, 8055, 1, 100), (8056, 8057, 1, 128), (8058, 8059, 1, 112),
   (8060, 8061, 1, 126), (8560, 8575, 1, -16), (9424, 9449, 1, -26), (43888, 43967, 1, -38864), (66600, 66639, 1, -40),
   (66776, 66811, 1, -40), (93883, 93907, 1, -27), (125218, 125251, 1, -34)]

/-- Upper case mappings to more than one character. -/
def upperSequences : List (Nat × List Nat) :=
  [(223, [83, 83]), (329, [700, 78]), (496, [74, 780]), (912, [921, 776, 769]), (944, [933, 776, 769]),
   (1415, [1333, 1362]), (7830, [72, 817]), (7831, [84, 776]), (7832, [87, 778]), (7833, [89, 778]), (7834, [65, 702]),
   (8016, [933, 787]), (8018, [933, 787, 768]), (8020, [933, 787, 769]), (8022, [933, 787, 834]), (8114, [8122, 921]),
   (8115, [913, 921]), (8116, [902, 921]), (8118, [913, 834]), (8119, [913, 834, 921]), (8124, [913, 921]),
   (8130, [8138, 921]), (8131, [919, 921]), (8132, [905, 921]), (8134, [919, 834]), (8135, [919, 834, 921]),
   (8140, [919, 921]), (8146, [921, 776, 768]), (8147, [921, 776, 769]), (8150, [921, 834]), (8151, [921, 776, 834]),
   (8162, [933, 776, 768]), (8163, [933, 776, 769]), (8164, [929, 787]), (8166, [933, 834]), (8167, [933, 776, 834]),
   (8178, [8186, 921]), (8179, [937, 921]), (8180, [911, 921]), (8182, [937, 834]), (8183, [937, 834, 921]),
   (8188, [937, 921]), (64256, [70, 70]), (64257, [70, 73]), (64258, [70, 76]), (64259, [70, 70, 73]),
   (64260, [70, 70, 76]), (64261, [83, 84]), (64262, [83, 84]), (64275, [1348, 1350]), (64276, [1348, 1333]),
   (64277, [1348, 1339]), (64278, [1358, 1350]), (64279, [1348, 1341])] ++
  [(8064, 7944), (8080, 7976), (8096, 8040)].flatMap fun (first, image) =>
    (List.range 16).map fun i => (first + i, [image + i % 8, 921])

def CaseRuns.undo (runs : CaseRuns) : CaseRuns :=
  runs.map fun (first, last, step, offset) =>
    ((first + offset : Int).toNat, (last + offset : Int).toNat, step, -offset)

/-- Single lower case mappings above the ASCII range: those that undo upper case mappings, behind those that go to
another letter than an upper case mapping came from, or to one that has none. -/
def lowerRuns : CaseRuns :=
  [(452, 458, 3, 2), (453, 459, 3, 1), (497, 497, 1, 2), (498, 498, 1, 1), (921, 921, 1, 32), (924, 924, 1, 32),
   (931, 931, 1, 32), (1012, 1012, 1, -60), (7838, 7838, 1, -7615), (8072, 8079, 1, -8), (8088, 8095, 1, -8),
   (8104, 8111, 1, -8), (8124, 8124, 1, -9), (8140, 8140, 1, -9), (8188, 8188, 1, -9), (8486, 8486, 1, -7517),
   (8490, 8490, 1, -8383), (8491, 8491, 1, -8262), (42570, 42570, 1, 1)] ++ upperRuns.undo

/-- Lower case mappings to more than one character. -/
def lowerSequences : List (Nat × List Nat) :=
  [(304, [105, 775])]

def casedLetters : Ranges :=
  .ofPacked
   [0x14a8b531ad1ac9325a306024d5cb8581a4d22cd1929a21aa22b202220702331335b01c943f1184a339f53238a23e22e60501b06839739189,
    0x11cea143f2a05463305523202020744021930501ce1c2901e01ed62261c55334622402626c33e202020273534d3534ad1892ff189235a61a,
    0x121a212621e21a1ed4b54b1c919f2ace39739289a41d64fd8919f71d25a1cee2252d19c2341cd28d3d2b5d7ccab06024d1d14373cc3caf6b,
    0x13835ab2640242323b2627332188262021b23313031218e21ac6acdd38338497f5adc97f5cbb2d1b2d1be6a1e6a2b8e18259223078c12621e,
    0x1397397393fdd18b4aab7d48e572b2193ced723823e23823e23823e23823e2382]

/-- Characters that are passed over when looking for the end of a word. -/
def caseIgnorable : Ranges :=
  .ofPacked
   [0x151a7b1a1bc3a3f0204a3219271ce0292c1b04c021a1b51c05d021212025c6a0603a863fc0211a05152ff7f81305020501980204c01c0704f,
    0x111c118019320307b0252f12d05124507a11c0413f0423151507a1303b12d0193507b02801e11b64057502078795a18611805d25c2f39030,
    0x1612421d78020203c119a6201a18301cb181c6301bb02218019903e12d0193517a13d12d16070307b03e11c1183226220780406b01d07e03f,
    0x1026207b0313bc2701a1521ef04b118a06c45e06041a301962118913f13f13e21eeb219c901bf028071301e3292513a13125231cf01a4b21a,
    0x141d11e21e21e21c2206fe1cc4b01e7e6b140705621c221ab51891377b220412079221334911d185906024206932d1b35d19058031977302,
    0x1019f491f11a933d0219231cb049f52bcb06fcaf21be51be064434d07ae0683f1c902801fe21ea15e9c486c1c2901e0219246a430301b119,
    0x1050301fa21a41cd021611f03c0216132206c01c04c01901d1313518b12e02a133306925f1a3a74f01e293b12b80613a05040191431cf238,
    0x1243b04f318fe12ce0525936122198f1825925288e42ae03cb0188a22e018c15e0680204c01c0701802da0304b1f1d041f18fe282ac04fce9,
    0x1020201e518f4464e0417a12e7402be0307120321c80331b186d11d07f7244d26b01b05031336a21b1305a1e6f01fc36a1a18f56d03914fc0,
    0x138f121c5f2351a019335591949051332a905021489121848c42330201ce02530201db120371ae13c121733df12150251ad038022371ae11f,
    0x12818807cb15927fd31a67c44f89241b2eb991e7281abae038020646d11c14ba018a020411990262120451fb1212632d1ab0252639a02220,
    0x147fc37e05e91d2c904a7d642126328262da91e242f01f0196956e3efc22ad33f631f1a218c92e35d199bd3216abf126233fffd11e121189,
    0x13df2891bf3f0388e88a45ae871de67a901a061180303ec13ff]

/-- The mapping of one character above the ASCII range. -/
def mapWide (runs : CaseRuns) (sequences : List (Nat × List Nat)) (c : Char) : List Char :=
  match sequences.lookup c.toNat with
  | some codes => codes.map Char.ofNat
  | none =>
    match runs.image? c.toNat with
    | some code => [Char.ofNat code]
    | none => [c]

def upperChar (c : Char) : List Char :=
  if c.toNat < 128 then [c.toUpper] else mapWide upperRuns upperSequences c

/-- Lower case of one character, out of context. -/
def lowerChar (c : Char) : List Char :=
  if c.toNat < 128 then [c.toLower] else mapWide lowerRuns lowerSequences c

def toUpper (s : String) : String :=
  String.ofList (s.toList.flatMap upperChar)

/-- Whether the first character that is not passed over has a case. -/
def startsCased (cs : List Char) : Bool :=
  match cs.dropWhile caseIgnorable.holds with
  | [] => false
  | c :: _ => casedLetters.holds c

/-- Lower case of a text that follows `before` (reversed). -/
def lowerFrom (before : List Char) : List Char → List Char
  | [] => []
  | c :: rest =>
    let image :=
      if c == 'Σ' then [if startsCased before && !startsCased rest then 'ς' else 'σ']
      else lowerChar c
    image ++ lowerFrom (c :: before) rest

def toLower (s : String) : String :=
  String.ofList (lowerFrom [] s.toList)

end JavaEdit.Text
