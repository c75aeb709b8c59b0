/-! Capital letters, and the capital form of a text. -/

namespace TextTemplate.Text

/-- Every `step`-th character from `first` to `last`. -/
structure Stride where
  first : Nat
  last : Nat
  step : Nat

def Stride.contains (r : Stride) (n : Nat) : Bool :=
  r.first ≤ n && n ≤ r.last && (n - r.first) % r.step == 0

/-- Unicode's Uppercase property beyond ASCII. -/
def wideCapitals : List Stride := [
  ⟨0x00c0, 0x00d6, 1⟩, ⟨0x00d8, 0x00de, 1⟩, ⟨0x0100, 0x0136, 2⟩, ⟨0x0139, 0x0147, 2⟩,
  ⟨0x014a, 0x0178, 2⟩, ⟨0x0179, 0x017d, 2⟩, ⟨0x0181, 0x0182, 1⟩, ⟨0x0184, 0x0186, 2⟩,
  ⟨0x0187, 0x0189, 2⟩, ⟨0x018a, 0x018b, 1⟩, ⟨0x018e, 0x0191, 1⟩, ⟨0x0193, 0x0194, 1⟩,
  ⟨0x0196, 0x0198, 1⟩, ⟨0x019c, 0x019d, 1⟩, ⟨0x019f, 0x01a0, 1⟩, ⟨0x01a2, 0x01a6, 2⟩,
  ⟨0x01a7, 0x01a9, 2⟩, ⟨0x01ac, 0x01ae, 2⟩, ⟨0x01af, 0x01b1, 2⟩, ⟨0x01b2, 0x01b3, 1⟩,
  ⟨0x01b5, 0x01b7, 2⟩, ⟨0x01b8, 0x01b8, 1⟩, ⟨0x01bc, 0x01bc, 1⟩, ⟨0x01c4, 0x01c4, 1⟩,
  ⟨0x01c7, 0x01c7, 1⟩, ⟨0x01ca, 0x01ca, 1⟩, ⟨0x01cd, 0x01db, 2⟩, ⟨0x01de, 0x01ee, 2⟩,
  ⟨0x01f1, 0x01f1, 1⟩, ⟨0x01f4, 0x01f6, 2⟩, ⟨0x01f7, 0x01f8, 1⟩, ⟨0x01fa, 0x0232, 2⟩,
  ⟨0x023a, 0x023b, 1⟩, ⟨0x023d, 0x023e, 1⟩, ⟨0x0241, 0x0243, 2⟩, ⟨0x0244, 0x0246, 1⟩,
  ⟨0x0248, 0x024e, 2⟩, ⟨0x0370, 0x0372, 2⟩, ⟨0x0376, 0x0376, 1⟩, ⟨0x037f, 0x037f, 1⟩,
  ⟨0x0386, 0x0388, 2⟩, ⟨0x0389, 0x038a, 1⟩, ⟨0x038c, 0x038e, 2⟩, ⟨0x038f, 0x0391, 2⟩,
  ⟨0x0392, 0x03a1, 1⟩, ⟨0x03a3, 0x03ab, 1⟩, ⟨0x03cf, 0x03cf, 1⟩, ⟨0x03d2, 0x03d4, 1⟩,
  ⟨0x03d8, 0x03ee, 2⟩, ⟨0x03f4, 0x03f4, 1⟩, ⟨0x03f7, 0x03f9, 2⟩, ⟨0x03fa, 0x03fa, 1⟩,
  ⟨0x03fd, 0x042f, 1⟩, ⟨0x0460, 0x0480, 2⟩, ⟨0x048a, 0x04c0, 2⟩, ⟨0x04c1, 0x04cd, 2⟩,
  ⟨0x04d0, 0x052e, 2⟩, ⟨0x0531, 0x0556, 1⟩, ⟨0x10a0, 0x10c5, 1⟩, ⟨0x10c7, 0x10c7, 1⟩,
  ⟨0x10cd, 0x10cd, 1⟩, ⟨0x13a0, 0x13f5, 1⟩, ⟨0x1c89, 0x1c89, 1⟩, ⟨0x1c90, 0x1cba, 1⟩,
  ⟨0x1cbd, 0x1cbf, 1⟩, ⟨0x1e00, 0x1e94, 2⟩, ⟨0x1e9e, 0x1efe, 2⟩, ⟨0x1f08, 0x1f0f, 1⟩,
  ⟨0x1f18, 0x1f1d, 1⟩, ⟨0x1f28, 0x1f2f, 1⟩, ⟨0x1f38, 0x1f3f, 1⟩, ⟨0x1f48, 0x1f4d, 1⟩,
  ⟨0x1f59, 0x1f5f, 2⟩, ⟨0x1f68, 0x1f6f, 1⟩, ⟨0x1fb8, 0x1fbb, 1⟩, ⟨0x1fc8, 0x1fcb, 1⟩,
  ⟨0x1fd8, 0x1fdb, 1⟩, ⟨0x1fe8, 0x1fec, 1⟩, ⟨0x1ff8, 0x1ffb, 1⟩, ⟨0x2102, 0x2102, 1⟩,
  ⟨0x2107, 0x2107, 1⟩, ⟨0x210b, 0x210d, 1⟩, ⟨0x2110, 0x2112, 1⟩, ⟨0x2115, 0x2115, 1⟩,
  ⟨0x2119, 0x211d, 1⟩, ⟨0x2124, 0x212a, 2⟩, ⟨0x212b, 0x212d, 1⟩, ⟨0x2130, 0x2133, 1⟩,
  ⟨0x213e, 0x213f, 1⟩, ⟨0x2145, 0x2145, 1⟩, ⟨0x2160, 0x216f, 1⟩, ⟨0x2183, 0x2183, 1⟩,
  ⟨0x24b6, 0x24cf, 1⟩, ⟨0x2c00, 0x2c2f, 1⟩, ⟨0x2c60, 0x2c62, 2⟩, ⟨0x2c63, 0x2c64, 1⟩,
  ⟨0x2c67, 0x2c6d, 2⟩, ⟨0x2c6e, 0x2c70, 1⟩, ⟨0x2c72, 0x2c72, 1⟩, ⟨0x2c75, 0x2c75, 1⟩,
  ⟨0x2c7e, 0x2c80, 1⟩, ⟨0x2c82, 0x2ce2, 2⟩, ⟨0x2ceb, 0x2ced, 2⟩, ⟨0x2cf2, 0x2cf2, 1⟩,
  ⟨0xa640, 0xa66c, 2⟩, ⟨0xa680, 0xa69a, 2⟩, ⟨0xa722, 0xa72e, 2⟩, ⟨0xa732, 0xa76e, 2⟩,
  ⟨0xa779, 0xa77d, 2⟩, ⟨0xa77e, 0xa786, 2⟩, ⟨0xa78b, 0xa78d, 2⟩, ⟨0xa790, 0xa792, 2⟩,
  ⟨0xa796, 0xa7aa, 2⟩, ⟨0xa7ab, 0xa7ae, 1⟩, ⟨0xa7b0, 0xa7b4, 1⟩, ⟨0xa7b6, 0xa7c4, 2⟩,
  ⟨0xa7c5, 0xa7c7, 1⟩, ⟨0xa7c9, 0xa7cb, 2⟩, ⟨0xa7cc, 0xa7dc, 2⟩, ⟨0xa7f5, 0xa7f5, 1⟩,
  ⟨0xff21, 0xff3a, 1⟩, ⟨0x10400, 0x10427, 1⟩, ⟨0x104b0, 0x104d3, 1⟩, ⟨0x10570, 0x1057a, 1⟩,
  ⟨0x1057c, 0x1058a, 1⟩, ⟨0x1058c, 0x10592, 1⟩, ⟨0x10594, 0x10595, 1⟩, ⟨0x10c80, 0x10cb2, 1⟩,
  ⟨0x10d50, 0x10d65, 1⟩, ⟨0x118a0, 0x118bf, 1⟩, ⟨0x16e40, 0x16e5f, 1⟩, ⟨0x16ea0, 0x16eb8, 1⟩,
  ⟨0x1d400, 0x1d419, 1⟩, ⟨0x1d434, 0x1d44d, 1⟩, ⟨0x1d468, 0x1d481, 1⟩, ⟨0x1d49c, 0x1d49e, 2⟩,
  ⟨0x1d49f, 0x1d49f, 1⟩, ⟨0x1d4a2, 0x1d4a2, 1⟩, ⟨0x1d4a5, 0x1d4a6, 1⟩, ⟨0x1d4a9, 0x1d4ac, 1⟩,
  ⟨0x1d4ae, 0x1d4b5, 1⟩, ⟨0x1d4d0, 0x1d4e9, 1⟩, ⟨0x1d504, 0x1d505, 1⟩, ⟨0x1d507, 0x1d50a, 1⟩,
  ⟨0x1d50d, 0x1d514, 1⟩, ⟨0x1d516, 0x1d51c, 1⟩, ⟨0x1d538, 0x1d539, 1⟩, ⟨0x1d53b, 0x1d53e, 1⟩,
  ⟨0x1d540, 0x1d544, 1⟩, ⟨0x1d546, 0x1d546, 1⟩, ⟨0x1d54a, 0x1d550, 1⟩, ⟨0x1d56c, 0x1d585, 1⟩,
  ⟨0x1d5a0, 0x1d5b9, 1⟩, ⟨0x1d5d4, 0x1d5ed, 1⟩, ⟨0x1d608, 0x1d621, 1⟩, ⟨0x1d63c, 0x1d655, 1⟩,
  ⟨0x1d670, 0x1d689, 1⟩, ⟨0x1d6a8, 0x1d6c0, 1⟩, ⟨0x1d6e2, 0x1d6fa, 1⟩, ⟨0x1d71c, 0x1d734, 1⟩,
  ⟨0x1d756, 0x1d76e, 1⟩, ⟨0x1d790, 0x1d7a8, 1⟩, ⟨0x1d7ca, 0x1d7ca, 1⟩, ⟨0x1e900, 0x1e921, 1⟩,
  ⟨0x1f130, 0x1f149, 1⟩, ⟨0x1f150, 0x1f169, 1⟩, ⟨0x1f170, 0x1f189, 1⟩]

def isCapital (c : Char) : Bool :=
  c.isUpper || wideCapitals.any (·.contains c.toNat)

/-- The letters beyond ASCII with one capital, in runs with the distance to their capitals. -/
def wideCapitalForms : List (Stride × Int) := [
  (⟨0x00b5, 0x00b5, 1⟩, 743), (⟨0x00e0, 0x00f6, 1⟩, -32), (⟨0x00f8, 0x00fe, 1⟩, -32),
  (⟨0x00ff, 0x00ff, 1⟩, 121), (⟨0x0101, 0x012f, 2⟩, -1), (⟨0x0131, 0x0131, 1⟩, -232),
  (⟨0x0133, 0x0137, 2⟩, -1), (⟨0x013a, 0x0148, 2⟩, -1), (⟨0x014b, 0x0177, 2⟩, -1),
  (⟨0x017a, 0x017e, 2⟩, -1), (⟨0x017f, 0x017f, 1⟩, -300), (⟨0x0180, 0x0180, 1⟩, 195),
  (⟨0x0183, 0x0185, 2⟩, -1), (⟨0x0188, 0x0188, 1⟩, -1), (⟨0x018c, 0x018c, 1⟩, -1),
  (⟨0x0192, 0x0192, 1⟩, -1), (⟨0x0195, 0x0195, 1⟩, 97), (⟨0x0199, 0x0199, 1⟩, -1),
  (⟨0x019a, 0x019a, 1⟩, 163), (⟨0x019b, 0x019b, 1⟩, 42561), (⟨0x019e, 0x019e, 1⟩, 130),
  (⟨0x01a1, 0x01a5, 2⟩, -1), (⟨0x01a8, 0x01a8, 1⟩, -1), (⟨0x01ad, 0x01ad, 1⟩, -1),
  (⟨0x01b0, 0x01b0, 1⟩, -1), (⟨0x01b4, 0x01b6, 2⟩, -1), (⟨0x01b9, 0x01b9, 1⟩, -1),
  (⟨0x01bd, 0x01bd, 1⟩, -1), (⟨0x01bf, 0x01bf, 1⟩, 56), (⟨0x01c5, 0x01c5, 1⟩, -1),
  (⟨0x01c6, 0x01c6, 1⟩, -2), (⟨0x01c8, 0x01c8, 1⟩, -1), (⟨0x01c9, 0x01c9, 1⟩, -2),
  (⟨0x01cb, 0x01cb, 1⟩, -1), (⟨0x01cc, 0x01cc, 1⟩, -2), (⟨0x01ce, 0x01dc, 2⟩, -1),
  (⟨0x01dd, 0x01dd, 1⟩, -79), (⟨0x01df, 0x01ef, 2⟩, -1), (⟨0x01f2, 0x01f2, 1⟩, -1),
  (⟨0x01f3, 0x01f3, 1⟩, -2), (⟨0x01f5, 0x01f5, 1⟩, -1), (⟨0x01f9, 0x021f, 2⟩, -1),
  (⟨0x0223, 0x0233, 2⟩, -1), (⟨0x023c, 0x023c, 1⟩, -1), (⟨0x023f, 0x0240, 1⟩, 10815),
  (⟨0x0242, 0x0242, 1⟩, -1), (⟨0x0247, 0x024f, 2⟩, -1), (⟨0x0250, 0x0250, 1⟩, 10783),
  (⟨0x0251, 0x0251, 1⟩, 10780), (⟨0x0252, 0x0252, 1⟩, 10782), (⟨0x0253, 0x0253, 1⟩, -210),
  (⟨0x0254, 0x0254, 1⟩, -206), (⟨0x0256, 0x0257, 1⟩, -205), (⟨0x0259, 0x0259, 1⟩, -202),
  (⟨0x025b, 0x025b, 1⟩, -203), (⟨0x025c, 0x025c, 1⟩, 42319), (⟨0x0260, 0x0260, 1⟩, -205),
  (⟨0x0261, 0x0261, 1⟩, 42315), (⟨0x0263, 0x0263, 1⟩, -207), (⟨0x0264, 0x0264, 1⟩, 42343),
  (⟨0x0265, 0x0265, 1⟩, 42280), (⟨0x0266, 0x0266, 1⟩, 42308), (⟨0x0268, 0x0268, 1⟩, -209),
  (⟨0x0269, 0x0269, 1⟩, -211), (⟨0x026a, 0x026a, 1⟩, 42308), (⟨0x026b, 0x026b, 1⟩, 10743),
  (⟨0x026c, 0x026c, 1⟩, 42305), (⟨0x026f, 0x026f, 1⟩, -211), (⟨0x0271, 0x0271, 1⟩, 10749),
  (⟨0x0272, 0x0272, 1⟩, -213), (⟨0x0275, 0x0275, 1⟩, -214), (⟨0x027d, 0x027d, 1⟩, 10727),
  (⟨0x0280, 0x0280, 1⟩, -218), (⟨0x0282, 0x0282, 1⟩, 42307), (⟨0x0283, 0x0283, 1⟩, -218),
  (⟨0x0287, 0x0287, 1⟩, 42282), (⟨0x0288, 0x0288, 1⟩, -218), (⟨0x0289, 0x0289, 1⟩, -69),
  (⟨0x028a, 0x028b, 1⟩, -217), (⟨0x028c, 0x028c, 1⟩, -71), (⟨0x0292, 0x0292, 1⟩, -219),
  (⟨0x029d, 0x029d, 1⟩, 42261), (⟨0x029e, 0x029e, 1⟩, 42258), (⟨0x0345, 0x0345, 1⟩, 84),
  (⟨0x0371, 0x0373, 2⟩, -1), (⟨0x0377, 0x0377, 1⟩, -1), (⟨0x037b, 0x037d, 1⟩, 130),
  (⟨0x03ac, 0x03ac, 1⟩, -38), (⟨0x03ad, 0x03af, 1⟩, -37), (⟨0x03b1, 0x03c1, 1⟩, -32),
  (⟨0x03c2, 0x03c2, 1⟩, -31), (⟨0x03c3, 0x03cb, 1⟩, -32), (⟨0x03cc, 0x03cc, 1⟩, -64),
  (⟨0x03cd, 0x03ce, 1⟩, -63), (⟨0x03d0, 0x03d0, 1⟩, -62), (⟨0x03d1, 0x03d1, 1⟩, -57),
  (⟨0x03d5, 0x03d5, 1⟩, -47), (⟨0x03d6, 0x03d6, 1⟩, -54), (⟨0x03d7, 0x03d7, 1⟩, -8),
  (⟨0x03d9, 0x03ef, 2⟩, -1), (⟨0x03f0, 0x03f0, 1⟩, -86), (⟨0x03f1, 0x03f1, 1⟩, -80),
  (⟨0x03f2, 0x03f2, 1⟩, 7), (⟨0x03f3, 0x03f3, 1⟩, -116), (⟨0x03f5, 0x03f5, 1⟩, -96),
  (⟨0x03f8, 0x03f8, 1⟩, -1), (⟨0x03fb, 0x03fb, 1⟩, -1), (⟨0x0430, 0x044f, 1⟩, -32),
  (⟨0x0450, 0x045f, 1⟩, -80), (⟨0x0461, 0x0481, 2⟩, -1), (⟨0x048b, 0x04bf, 2⟩, -1),
  (⟨0x04c2, 0x04ce, 2⟩, -1), (⟨0x04cf, 0x04cf, 1⟩, -15), (⟨0x04d1, 0x052f, 2⟩, -1),
  (⟨0x0561, 0x0586, 1⟩, -48), (⟨0x10d0, 0x10fa, 1⟩, 3008), (⟨0x10fd, 0x10ff, 1⟩, 3008),
  (⟨0x13f8, 0x13fd, 1⟩, -8), (⟨0x1c80, 0x1c80, 1⟩, -6254), (⟨0x1c81, 0x1c81, 1⟩, -6253),
  (⟨0x1c82, 0x1c82, 1⟩, -6244), (⟨0x1c83, 0x1c84, 1⟩, -6242), (⟨0x1c85, 0x1c85, 1⟩, -6243),
  (⟨0x1c86, 0x1c86, 1⟩, -6236), (⟨0x1c87, 0x1c87, 1⟩, -6181), (⟨0x1c88, 0x1c88, 1⟩, 35266),
  (⟨0x1c8a, 0x1c8a, 1⟩, -1), (⟨0x1d79, 0x1d79, 1⟩, 35332), (⟨0x1d7d, 0x1d7d, 1⟩, 3814),
  (⟨0x1d8e, 0x1d8e, 1⟩, 35384), (⟨0x1e01, 0x1e95, 2⟩, -1), (⟨0x1e9b, 0x1e9b, 1⟩, -59),
  (⟨0x1ea1, 0x1eff, 2⟩, -1), (⟨0x1f00, 0x1f07, 1⟩, 8), (⟨0x1f10, 0x1f15, 1⟩, 8),
  (⟨0x1f20, 0x1f27, 1⟩, 8), (⟨0x1f30, 0x1f37, 1⟩, 8), (⟨0x1f40, 0x1f45, 1⟩, 8),
  (⟨0x1f51, 0x1f57, 2⟩, 8), (⟨0x1f60, 0x1f67, 1⟩, 8), (⟨0x1f70, 0x1f71, 1⟩, 74),
  (⟨0x1f72, 0x1f75, 1⟩, 86), (⟨0x1f76, 0x1f77, 1⟩, 100), (⟨0x1f78, 0x1f79, 1⟩, 128),
  (⟨0x1f7a, 0x1f7b, 1⟩, 112), (⟨0x1f7c, 0x1f7d, 1⟩, 126), (⟨0x1fb0, 0x1fb1, 1⟩, 8),
  (⟨0x1fbe, 0x1fbe, 1⟩, -7205), (⟨0x1fd0, 0x1fd1, 1⟩, 8), (⟨0x1fe0, 0x1fe1, 1⟩, 8),
  (⟨0x1fe5, 0x1fe5, 1⟩, 7), (⟨0x214e, 0x214e, 1⟩, -28), (⟨0x2170, 0x217f, 1⟩, -16),
  (⟨0x2184, 0x2184, 1⟩, -1), (⟨0x24d0, 0x24e9, 1⟩, -26), (⟨0x2c30, 0x2c5f, 1⟩, -48),
  (⟨0x2c61, 0x2c61, 1⟩, -1), (⟨0x2c65, 0x2c65, 1⟩, -10795), (⟨0x2c66, 0x2c66, 1⟩, -10792),
  (⟨0x2c68, 0x2c6c, 2⟩, -1), (⟨0x2c73, 0x2c73, 1⟩, -1), (⟨0x2c76, 0x2c76, 1⟩, -1),
  (⟨0x2c81, 0x2ce3, 2⟩, -1), (⟨0x2cec, 0x2cee, 2⟩, -1), (⟨0x2cf3, 0x2cf3, 1⟩, -1),
  (⟨0x2d00, 0x2d25, 1⟩, -7264), (⟨0x2d27, 0x2d27, 1⟩, -7264), (⟨0x2d2d, 0x2d2d, 1⟩, -7264),
  (⟨0xa641, 0xa66d, 2⟩, -1), (⟨0xa681, 0xa69b, 2⟩, -1), (⟨0xa723, 0xa72f, 2⟩, -1),
  (⟨0xa733, 0xa76f, 2⟩, -1), (⟨0xa77a, 0xa77c, 2⟩, -1), (⟨0xa77f, 0xa787, 2⟩, -1),
  (⟨0xa78c, 0xa78c, 1⟩, -1), (⟨0xa791, 0xa793, 2⟩, -1), (⟨0xa794, 0xa794, 1⟩, 48),
  (⟨0xa797, 0xa7a9, 2⟩, -1), (⟨0xa7b5, 0xa7c3, 2⟩, -1), (⟨0xa7c8, 0xa7ca, 2⟩, -1),
  (⟨0xa7cd, 0xa7db, 2⟩, -1), (⟨0xa7f6, 0xa7f6, 1⟩, -1), (⟨0xab53, 0xab53, 1⟩, -928),
  (⟨0xab70, 0xabbf, 1⟩, -38864), (⟨0xff41, 0xff5a, 1⟩, -32), (⟨0x10428, 0x1044f, 1⟩, -40),
  (⟨0x104d8, 0x104fb, 1⟩, -40), (⟨0x10597, 0x105a1, 1⟩, -39), (⟨0x105a3, 0x105b1, 1⟩, -39),
  (⟨0x105b3, 0x105b9, 1⟩, -39), (⟨0x105bb, 0x105bc, 1⟩, -39), (⟨0x10cc0, 0x10cf2, 1⟩, -64),
  (⟨0x10d70, 0x10d85, 1⟩, -32), (⟨0x118c0, 0x118df, 1⟩, -32), (⟨0x16e60, 0x16e7f, 1⟩, -32),
  (⟨0x16ebb, 0x16ed3, 1⟩, -27), (⟨0x1e922, 0x1e943, 1⟩, -34)]

/-- The letters whose capital form is a text of two or three characters. -/
def longCapitalForms : List (Char × String) := [
  ('\u00df', "\u0053\u0053"), ('\u0149', "\u02bc\u004e"), ('\u01f0', "\u004a\u030c"),
  ('\u0390', "\u0399\u0308\u0301"), ('\u03b0', "\u03a5\u0308\u0301"), ('\u0587', "\u0535\u0552"),
  ('\u1e96', "\u0048\u0331"), ('\u1e97', "\u0054\u0308"), ('\u1e98', "\u0057\u030a"),
  ('\u1e99', "\u0059\u030a"), ('\u1e9a', "\u0041\u02be"), ('\u1f50', "\u03a5\u0313"),
  ('\u1f52', "\u03a5\u0313\u0300"), ('\u1f54', "\u03a5\u0313\u0301"),
  ('\u1f56', "\u03a5\u0313\u0342"), ('\u1f80', "\u1f08\u0399"), ('\u1f81', "\u1f09\u0399"),
  ('\u1f82', "\u1f0a\u0399"), ('\u1f83', "\u1f0b\u0399"), ('\u1f84', "\u1f0c\u0399"),
  ('\u1f85', "\u1f0d\u0399"), ('\u1f86', "\u1f0e\u0399"), ('\u1f87', "\u1f0f\u0399"),
  ('\u1f88', "\u1f08\u0399"), ('\u1f89', "\u1f09\u0399"), ('\u1f8a', "\u1f0a\u0399"),
  ('\u1f8b', "\u1f0b\u0399"), ('\u1f8c', "\u1f0c\u0399"), ('\u1f8d', "\u1f0d\u0399"),
  ('\u1f8e', "\u1f0e\u0399"), ('\u1f8f', "\u1f0f\u0399"), ('\u1f90', "\u1f28\u0399"),
  ('\u1f91', "\u1f29\u0399"), ('\u1f92', "\u1f2a\u0399"), ('\u1f93', "\u1f2b\u0399"),
  ('\u1f94', "\u1f2c\u0399"), ('\u1f95', "\u1f2d\u0399"), ('\u1f96', "\u1f2e\u0399"),
  ('\u1f97', "\u1f2f\u0399"), ('\u1f98', "\u1f28\u0399"), ('\u1f99', "\u1f29\u0399"),
  ('\u1f9a', "\u1f2a\u0399"), ('\u1f9b', "\u1f2b\u0399"), ('\u1f9c', "\u1f2c\u0399"),
  ('\u1f9d', "\u1f2d\u0399"), ('\u1f9e', "\u1f2e\u0399"), ('\u1f9f', "\u1f2f\u0399"),
  ('\u1fa0', "\u1f68\u0399"), ('\u1fa1', "\u1f69\u0399"), ('\u1fa2', "\u1f6a\u0399"),
  ('\u1fa3', "\u1f6b\u0399"), ('\u1fa4', "\u1f6c\u0399"), ('\u1fa5', "\u1f6d\u0399"),
  ('\u1fa6', "\u1f6e\u0399"), ('\u1fa7', "\u1f6f\u0399"), ('\u1fa8', "\u1f68\u0399"),
  ('\u1fa9', "\u1f69\u0399"), ('\u1faa', "\u1f6a\u0399"), ('\u1fab', "\u1f6b\u0399"),
  ('\u1fac', "\u1f6c\u0399"), ('\u1fad', "\u1f6d\u0399"), ('\u1fae', "\u1f6e\u0399"),
  ('\u1faf', "\u1f6f\u0399"), ('\u1fb2', "\u1fba\u0399"), ('\u1fb3', "\u0391\u0399"),
  ('\u1fb4', "\u0386\u0399"), ('\u1fb6', "\u0391\u0342"), ('\u1fb7', "\u0391\u0342\u0399"),
  ('\u1fbc', "\u0391\u0399"), ('\u1fc2', "\u1fca\u0399"), ('\u1fc3', "\u0397\u0399"),
  ('\u1fc4', "\u0389\u0399"), ('\u1fc6', "\u0397\u0342"), ('\u1fc7', "\u0397\u0342\u0399"),
  ('\u1fcc', "\u0397\u0399"), ('\u1fd2', "\u0399\u0308\u0300"), ('\u1fd3', "\u0399\u0308\u0301"),
  ('\u1fd6', "\u0399\u0342"), ('\u1fd7', "\u0399\u0308\u0342"), ('\u1fe2', "\u03a5\u0308\u0300"),
  ('\u1fe3', "\u03a5\u0308\u0301"), ('\u1fe4', "\u03a1\u0313"), ('\u1fe6', "\u03a5\u0342"),
  ('\u1fe7', "\u03a5\u0308\u0342"), ('\u1ff2', "\u1ffa\u0399"), ('\u1ff3', "\u03a9\u0399"),
  ('\u1ff4', "\u038f\u0399"), ('\u1ff6', "\u03a9\u0342"), ('\u1ff7', "\u03a9\u0342\u0399"),
  ('\u1ffc', "\u03a9\u0399"), ('\ufb00', "\u0046\u0046"), ('\ufb01', "\u0046\u0049"),
  ('\ufb02', "\u0046\u004c"), ('\ufb03', "\u0046\u0046\u0049"), ('\ufb04', "\u0046\u0046\u004c"),
  ('\ufb05', "\u0053\u0054"), ('\ufb06', "\u0053\u0054"), ('\ufb13', "\u0544\u0546"),
  ('\ufb14', "\u0544\u0535"), ('\ufb15', "\u0544\u053b"), ('\ufb16', "\u054e\u0546"),
  ('\ufb17', "\u0544\u053d")]

/-- The capital form of a character, which is the character itself when it has none. -/
def capital (c : Char) : List Char :=
  if c.toNat < 128 then [c.toUpper]
  else match longCapitalForms.lookup c with
    | some s => s.toList
    | none =>
      match wideCapitalForms.find? (·.1.contains c.toNat) with
      | some (_, d) => [Char.ofNat (c.toNat + d).toNat]
      | none => [c]

def capitals (s : List Char) : List Char := s.flatMap capital

end TextTemplate.Text
