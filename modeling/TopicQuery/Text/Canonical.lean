import TopicQuery.Text.Parts

/-!
Characters that are the same as a sequence of others: a letter with its accents,
and characters that only repeat another one. In the tables a character that is
taken apart no further stands for itself.
-/

namespace TopicQuery.Text

/-- The sequences that are written as one character in composed form. -/
def wholeSeries : Series := [
  (0xC0, "A\u0300 A\u0301 A\u0302 A\u0303 A\u0308 A\u030a Æ C\u0327 E\u0300 E\u0301 E\u0302"),
  (0xCB, "E\u0308 I\u0300 I\u0301 I\u0302 I\u0308 Ð N\u0303 O\u0300 O\u0301 O\u0302 O\u0303"),
  (0xD6, "O\u0308 × Ø U\u0300 U\u0301 U\u0302 U\u0308 Y\u0301 Þ ß a\u0300 a\u0301 a\u0302"),
  (0xE3, "a\u0303 a\u0308 a\u030a æ c\u0327 e\u0300 e\u0301 e\u0302 e\u0308 i\u0300 i\u0301"),
  (0xEE, "i\u0302 i\u0308 ð n\u0303 o\u0300 o\u0301 o\u0302 o\u0303 o\u0308 ÷ ø u\u0300 u\u0301"),
  (0xFB, "u\u0302 u\u0308 y\u0301 þ y\u0308 A\u0304 a\u0304 A\u0306 a\u0306 A\u0328 a\u0328"),
  (0x106, "C\u0301 c\u0301 C\u0302 c\u0302 C\u0307 c\u0307 C\u030c c\u030c D\u030c d\u030c Đ đ"),
  (0x112, "E\u0304 e\u0304 E\u0306 e\u0306 E\u0307 e\u0307 E\u0328 e\u0328 E\u030c e\u030c"),
  (0x11C, "G\u0302 g\u0302 G\u0306 g\u0306 G\u0307 g\u0307 G\u0327 g\u0327 H\u0302 h\u0302 Ħ ħ"),
  (0x128, "I\u0303 i\u0303 I\u0304 i\u0304 I\u0306 i\u0306 I\u0328 i\u0328 I\u0307 ı Ĳ ĳ J\u0302"),
  (0x135, "j\u0302 K\u0327 k\u0327 ĸ L\u0301 l\u0301 L\u0327 l\u0327 L\u030c l\u030c"),
  (0x143, "N\u0301 n\u0301 N\u0327 n\u0327 N\u030c n\u030c ŉ Ŋ ŋ O\u0304 o\u0304 O\u0306 o\u0306"),
  (0x150, "O\u030b o\u030b Œ œ R\u0301 r\u0301 R\u0327 r\u0327 R\u030c r\u030c S\u0301 s\u0301"),
  (0x15C, "S\u0302 s\u0302 S\u0327 s\u0327 S\u030c s\u030c T\u0327 t\u0327 T\u030c t\u030c Ŧ ŧ"),
  (0x168, "U\u0303 u\u0303 U\u0304 u\u0304 U\u0306 u\u0306 U\u030a u\u030a U\u030b u\u030b"),
  (0x172, "U\u0328 u\u0328 W\u0302 w\u0302 Y\u0302 y\u0302 Y\u0308 Z\u0301 z\u0301 Z\u0307"),
  (0x17C, "z\u0307 Z\u030c z\u030c"), (0x1A0, "O\u031b o\u031b"), (0x1AF, "U\u031b u\u031b"),
  (0x1CD, "A\u030c a\u030c I\u030c i\u030c O\u030c o\u030c U\u030c u\u030c U\u0308\u0304"),
  (0x1D6, "u\u0308\u0304 U\u0308\u0301 u\u0308\u0301 U\u0308\u030c u\u0308\u030c U\u0308\u0300"),
  (0x1DC, "u\u0308\u0300 ǝ A\u0308\u0304 a\u0308\u0304 A\u0307\u0304 a\u0307\u0304 Æ\u0304"),
  (0x1E3, "æ\u0304 Ǥ ǥ G\u030c g\u030c K\u030c k\u030c O\u0328 o\u0328 O\u0328\u0304"),
  (0x1ED, "o\u0328\u0304 Ʒ\u030c ʒ\u030c j\u030c Ǳ ǲ ǳ G\u0301 g\u0301 Ƕ Ƿ N\u0300 n\u0300"),
  (0x1FA, "A\u030a\u0301 a\u030a\u0301 Æ\u0301 æ\u0301 Ø\u0301 ø\u0301 A\u030f a\u030f A\u0311"),
  (0x203, "a\u0311 E\u030f e\u030f E\u0311 e\u0311 I\u030f i\u030f I\u0311 i\u0311 O\u030f"),
  (0x20D, "o\u030f O\u0311 o\u0311 R\u030f r\u030f R\u0311 r\u0311 U\u030f u\u030f U\u0311"),
  (0x217, "u\u0311 S\u0326 s\u0326 T\u0326 t\u0326 Ȝ ȝ H\u030c h\u030c"),
  (0x226, "A\u0307 a\u0307 E\u0327 e\u0327 O\u0308\u0304 o\u0308\u0304 O\u0303\u0304"),
  (0x22D, "o\u0303\u0304 O\u0307 o\u0307 O\u0307\u0304 o\u0307\u0304 Y\u0304 y\u0304"),
  (0x385, "¨\u0301 Α\u0301"), (0x388, "Ε\u0301 Η\u0301 Ι\u0301"), (0x38C, "Ο\u0301"),
  (0x38E, "Υ\u0301 Ω\u0301 ι\u0308\u0301"),
  (0x3AA, "Ι\u0308 Υ\u0308 α\u0301 ε\u0301 η\u0301 ι\u0301 υ\u0308\u0301"),
  (0x3CA, "ι\u0308 υ\u0308 ο\u0301 υ\u0301 ω\u0301"), (0x3D3, "ϒ\u0301 ϒ\u0308"),
  (0x400, "Е\u0300 Е\u0308 Ђ Г\u0301 Є Ѕ І І\u0308"), (0x40C, "К\u0301 И\u0300 У\u0306"),
  (0x419, "И\u0306"), (0x439, "и\u0306"), (0x450, "е\u0300 е\u0308 ђ г\u0301 є ѕ і і\u0308"),
  (0x45C, "к\u0301 и\u0300 у\u0306"), (0x476, "Ѵ\u030f ѵ\u030f"), (0x4C1, "Ж\u0306 ж\u0306"),
  (0x4D0, "А\u0306 а\u0306 А\u0308 а\u0308 Ӕ ӕ Е\u0306 е\u0306 Ә ә Ә\u0308 ә\u0308 Ж\u0308"),
  (0x4DD, "ж\u0308 З\u0308 з\u0308 Ӡ ӡ И\u0304 и\u0304 И\u0308 и\u0308 О\u0308 о\u0308 Ө ө"),
  (0x4EA, "Ө\u0308 ө\u0308 Э\u0308 э\u0308 У\u0304 у\u0304 У\u0308 у\u0308 У\u030b у\u030b"),
  (0x4F4, "Ч\u0308 ч\u0308 Ӷ ӷ Ы\u0308 ы\u0308"),
  (0x622, "\u0627\u0653 \u0627\u0654 \u0648\u0654 \u0627\u0655 \u064a\u0654"),
  (0x6C0, "\u06d5\u0654 \u06c1 \u06c1\u0654"), (0x6D3, "\u06d2\u0654"), (0x929, "न\u093c"),
  (0x931, "र\u093c ल ळ ळ\u093c"), (0x9CB, "\u09c7\u09be \u09c7\u09d7"), (0xB48, "\u0b47\u0b56"),
  (0xB4B, "\u0b47\u0b3e \u0b47\u0b57"), (0xB94, "ஒ\u0bd7"),
  (0xBCA, "\u0bc6\u0bbe \u0bc7\u0bbe \u0bc6\u0bd7"), (0xC48, "\u0c46\u0c56"),
  (0xCC0, "\u0cbf\u0cd5"), (0xCC7, "\u0cc6\u0cd5 \u0cc6\u0cd6"),
  (0xCCA, "\u0cc6\u0cc2 \u0cc6\u0cc2\u0cd5"), (0xD4A, "\u0d46\u0d3e \u0d47\u0d3e \u0d46\u0d57"),
  (0xDDA, "\u0dd9\u0dca \u0ddb \u0dd9\u0dcf \u0dd9\u0dcf\u0dca \u0dd9\u0ddf"), (0x1026, "ဥ\u102e"),
  (0x1B06, "ᬅ\u1b35 ᬇ ᬇ\u1b35 ᬉ ᬉ\u1b35 ᬋ ᬋ\u1b35 ᬍ ᬍ\u1b35 ᬏ ᬐ ᬑ ᬑ\u1b35"),
  (0x1B3B, "\u1b3a\u1b35 \u1b3c \u1b3c\u1b35 \u1b3e \u1b3f \u1b3e\u1b35 \u1b3f\u1b35 \u1b42"),
  (0x1B43, "\u1b42\u1b35"),
  (0x1E00, "A\u0325 a\u0325 B\u0307 b\u0307 B\u0323 b\u0323 B\u0331 b\u0331 C\u0327\u0301"),
  (0x1E09, "c\u0327\u0301 D\u0307 d\u0307 D\u0323 d\u0323 D\u0331 d\u0331 D\u0327 d\u0327 D\u032d"),
  (0x1E13, "d\u032d E\u0304\u0300 e\u0304\u0300 E\u0304\u0301 e\u0304\u0301 E\u032d e\u032d"),
  (0x1E1A, "E\u0330 e\u0330 E\u0327\u0306 e\u0327\u0306 F\u0307 f\u0307 G\u0304 g\u0304 H\u0307"),
  (0x1E23, "h\u0307 H\u0323 h\u0323 H\u0308 h\u0308 H\u0327 h\u0327 H\u032e h\u032e I\u0330"),
  (0x1E2D, "i\u0330 I\u0308\u0301 i\u0308\u0301 K\u0301 k\u0301 K\u0323 k\u0323 K\u0331 k\u0331"),
  (0x1E36, "L\u0323 l\u0323 L\u0323\u0304 l\u0323\u0304 L\u0331 l\u0331 L\u032d l\u032d M\u0301"),
  (0x1E3F, "m\u0301 M\u0307 m\u0307 M\u0323 m\u0323 N\u0307 n\u0307 N\u0323 n\u0323 N\u0331"),
  (0x1E49, "n\u0331 N\u032d n\u032d O\u0303\u0301 o\u0303\u0301 O\u0303\u0308 o\u0303\u0308"),
  (0x1E50, "O\u0304\u0300 o\u0304\u0300 O\u0304\u0301 o\u0304\u0301 P\u0301 p\u0301 P\u0307"),
  (0x1E57, "p\u0307 R\u0307 r\u0307 R\u0323 r\u0323 R\u0323\u0304 r\u0323\u0304 R\u0331 r\u0331"),
  (0x1E60, "S\u0307 s\u0307 S\u0323 s\u0323 S\u0301\u0307 s\u0301\u0307 S\u030c\u0307"),
  (0x1E67, "s\u030c\u0307 S\u0323\u0307 s\u0323\u0307 T\u0307 t\u0307 T\u0323 t\u0323 T\u0331"),
  (0x1E6F, "t\u0331 T\u032d t\u032d U\u0324 u\u0324 U\u0330 u\u0330 U\u032d u\u032d U\u0303\u0301"),
  (0x1E79, "u\u0303\u0301 U\u0304\u0308 u\u0304\u0308 V\u0303 v\u0303 V\u0323 v\u0323 W\u0300"),
  (0x1E81, "w\u0300 W\u0301 w\u0301 W\u0308 w\u0308 W\u0307 w\u0307 W\u0323 w\u0323 X\u0307"),
  (0x1E8B, "x\u0307 X\u0308 x\u0308 Y\u0307 y\u0307 Z\u0302 z\u0302 Z\u0323 z\u0323 Z\u0331"),
  (0x1E95, "z\u0331 h\u0331 t\u0308 w\u030a y\u030a ẚ ſ\u0307"),
  (0x1EA0, "A\u0323 a\u0323 A\u0309 a\u0309 A\u0302\u0301 a\u0302\u0301 A\u0302\u0300"),
  (0x1EA7, "a\u0302\u0300 A\u0302\u0309 a\u0302\u0309 A\u0302\u0303 a\u0302\u0303 A\u0323\u0302"),
  (0x1EAD, "a\u0323\u0302 A\u0306\u0301 a\u0306\u0301 A\u0306\u0300 a\u0306\u0300 A\u0306\u0309"),
  (0x1EB3, "a\u0306\u0309 A\u0306\u0303 a\u0306\u0303 A\u0323\u0306 a\u0323\u0306 E\u0323 e\u0323"),
  (0x1EBA, "E\u0309 e\u0309 E\u0303 e\u0303 E\u0302\u0301 e\u0302\u0301 E\u0302\u0300"),
  (0x1EC1, "e\u0302\u0300 E\u0302\u0309 e\u0302\u0309 E\u0302\u0303 e\u0302\u0303 E\u0323\u0302"),
  (0x1EC7, "e\u0323\u0302 I\u0309 i\u0309 I\u0323 i\u0323 O\u0323 o\u0323 O\u0309 o\u0309"),
  (0x1ED0, "O\u0302\u0301 o\u0302\u0301 O\u0302\u0300 o\u0302\u0300 O\u0302\u0309 o\u0302\u0309"),
  (0x1ED6, "O\u0302\u0303 o\u0302\u0303 O\u0323\u0302 o\u0323\u0302 O\u031b\u0301 o\u031b\u0301"),
  (0x1EDC, "O\u031b\u0300 o\u031b\u0300 O\u031b\u0309 o\u031b\u0309 O\u031b\u0303 o\u031b\u0303"),
  (0x1EE2, "O\u031b\u0323 o\u031b\u0323 U\u0323 u\u0323 U\u0309 u\u0309 U\u031b\u0301"),
  (0x1EE9, "u\u031b\u0301 U\u031b\u0300 u\u031b\u0300 U\u031b\u0309 u\u031b\u0309 U\u031b\u0303"),
  (0x1EEF, "u\u031b\u0303 U\u031b\u0323 u\u031b\u0323 Y\u0300 y\u0300 Y\u0323 y\u0323 Y\u0309"),
  (0x1EF7, "y\u0309 Y\u0303 y\u0303"),
  (0x1F00, "α\u0313 α\u0314 α\u0313\u0300 α\u0314\u0300 α\u0313\u0301 α\u0314\u0301 α\u0313\u0342"),
  (0x1F07, "α\u0314\u0342 Α\u0313 Α\u0314 Α\u0313\u0300 Α\u0314\u0300 Α\u0313\u0301 Α\u0314\u0301"),
  (0x1F0E, "Α\u0313\u0342 Α\u0314\u0342 ε\u0313 ε\u0314 ε\u0313\u0300 ε\u0314\u0300 ε\u0313\u0301"),
  (0x1F15, "ε\u0314\u0301"),
  (0x1F18, "Ε\u0313 Ε\u0314 Ε\u0313\u0300 Ε\u0314\u0300 Ε\u0313\u0301 Ε\u0314\u0301"),
  (0x1F20, "η\u0313 η\u0314 η\u0313\u0300 η\u0314\u0300 η\u0313\u0301 η\u0314\u0301 η\u0313\u0342"),
  (0x1F27, "η\u0314\u0342 Η\u0313 Η\u0314 Η\u0313\u0300 Η\u0314\u0300 Η\u0313\u0301 Η\u0314\u0301"),
  (0x1F2E, "Η\u0313\u0342 Η\u0314\u0342 ι\u0313 ι\u0314 ι\u0313\u0300 ι\u0314\u0300 ι\u0313\u0301"),
  (0x1F35, "ι\u0314\u0301 ι\u0313\u0342 ι\u0314\u0342 Ι\u0313 Ι\u0314 Ι\u0313\u0300 Ι\u0314\u0300"),
  (0x1F3C, "Ι\u0313\u0301 Ι\u0314\u0301 Ι\u0313\u0342 Ι\u0314\u0342 ο\u0313 ο\u0314 ο\u0313\u0300"),
  (0x1F43, "ο\u0314\u0300 ο\u0313\u0301 ο\u0314\u0301"),
  (0x1F48, "Ο\u0313 Ο\u0314 Ο\u0313\u0300 Ο\u0314\u0300 Ο\u0313\u0301 Ο\u0314\u0301"),
  (0x1F50, "υ\u0313 υ\u0314 υ\u0313\u0300 υ\u0314\u0300 υ\u0313\u0301 υ\u0314\u0301 υ\u0313\u0342"),
  (0x1F57, "υ\u0314\u0342"), (0x1F59, "Υ\u0314"), (0x1F5B, "Υ\u0314\u0300"),
  (0x1F5D, "Υ\u0314\u0301"),
  (0x1F5F, "Υ\u0314\u0342 ω\u0313 ω\u0314 ω\u0313\u0300 ω\u0314\u0300 ω\u0313\u0301 ω\u0314\u0301"),
  (0x1F66, "ω\u0313\u0342 ω\u0314\u0342 Ω\u0313 Ω\u0314 Ω\u0313\u0300 Ω\u0314\u0300 Ω\u0313\u0301"),
  (0x1F6D, "Ω\u0314\u0301 Ω\u0313\u0342 Ω\u0314\u0342 α\u0300"), (0x1F72, "ε\u0300"),
  (0x1F74, "η\u0300"), (0x1F76, "ι\u0300"), (0x1F78, "ο\u0300"), (0x1F7A, "υ\u0300"),
  (0x1F7C, "ω\u0300"),
  (0x1F80, "α\u0313\u0345 α\u0314\u0345 α\u0313\u0300\u0345 α\u0314\u0300\u0345"),
  (0x1F84, "α\u0313\u0301\u0345 α\u0314\u0301\u0345 α\u0313\u0342\u0345 α\u0314\u0342\u0345"),
  (0x1F88, "Α\u0313\u0345 Α\u0314\u0345 Α\u0313\u0300\u0345 Α\u0314\u0300\u0345"),
  (0x1F8C, "Α\u0313\u0301\u0345 Α\u0314\u0301\u0345 Α\u0313\u0342\u0345 Α\u0314\u0342\u0345"),
  (0x1F90, "η\u0313\u0345 η\u0314\u0345 η\u0313\u0300\u0345 η\u0314\u0300\u0345"),
  (0x1F94, "η\u0313\u0301\u0345 η\u0314\u0301\u0345 η\u0313\u0342\u0345 η\u0314\u0342\u0345"),
  (0x1F98, "Η\u0313\u0345 Η\u0314\u0345 Η\u0313\u0300\u0345 Η\u0314\u0300\u0345"),
  (0x1F9C, "Η\u0313\u0301\u0345 Η\u0314\u0301\u0345 Η\u0313\u0342\u0345 Η\u0314\u0342\u0345"),
  (0x1FA0, "ω\u0313\u0345 ω\u0314\u0345 ω\u0313\u0300\u0345 ω\u0314\u0300\u0345"),
  (0x1FA4, "ω\u0313\u0301\u0345 ω\u0314\u0301\u0345 ω\u0313\u0342\u0345 ω\u0314\u0342\u0345"),
  (0x1FA8, "Ω\u0313\u0345 Ω\u0314\u0345 Ω\u0313\u0300\u0345 Ω\u0314\u0300\u0345"),
  (0x1FAC, "Ω\u0313\u0301\u0345 Ω\u0314\u0301\u0345 Ω\u0313\u0342\u0345 Ω\u0314\u0342\u0345"),
  (0x1FB0, "α\u0306 α\u0304 α\u0300\u0345 α\u0345 α\u0301\u0345"),
  (0x1FB6, "α\u0342 α\u0342\u0345 Α\u0306 Α\u0304 Α\u0300"), (0x1FBC, "Α\u0345"),
  (0x1FC1, "¨\u0342 η\u0300\u0345 η\u0345 η\u0301\u0345"),
  (0x1FC6, "η\u0342 η\u0342\u0345 Ε\u0300"), (0x1FCA, "Η\u0300"),
  (0x1FCC, "Η\u0345 ᾿\u0300 ᾿\u0301 ᾿\u0342 ι\u0306 ι\u0304 ι\u0308\u0300"),
  (0x1FD6, "ι\u0342 ι\u0308\u0342 Ι\u0306 Ι\u0304 Ι\u0300"),
  (0x1FDD, "῾\u0300 ῾\u0301 ῾\u0342 υ\u0306 υ\u0304 υ\u0308\u0300"),
  (0x1FE4, "ρ\u0313 ρ\u0314 υ\u0342 υ\u0308\u0342 Υ\u0306 Υ\u0304 Υ\u0300"),
  (0x1FEC, "Ρ\u0314 ¨\u0300"), (0x1FF2, "ω\u0300\u0345 ω\u0345 ω\u0301\u0345"),
  (0x1FF6, "ω\u0342 ω\u0342\u0345 Ο\u0300"), (0x1FFA, "Ω\u0300"), (0x1FFC, "Ω\u0345"),
  (0x219A, "←\u0338 →\u0338"), (0x21AE, "↔\u0338"), (0x21CD, "⇐\u0338 ⇔\u0338 ⇒\u0338"),
  (0x2204, "∃\u0338"), (0x2209, "∈\u0338 ∊ ∋ ∋\u0338"), (0x2224, "∣\u0338 ∥ ∥\u0338"),
  (0x2241, "∼\u0338 ≂ ≃ ≃\u0338 ≅ ≆ ≅\u0338 ≈ ≈\u0338"), (0x2260, "=\u0338 ≡ ≡\u0338"),
  (0x226D, "≍\u0338 <\u0338 >\u0338 ≤\u0338 ≥\u0338 ≲ ≳ ≲\u0338 ≳\u0338 ≶ ≷ ≶\u0338 ≷\u0338"),
  (0x2280, "≺\u0338 ≻\u0338 ⊂ ⊃ ⊂\u0338 ⊃\u0338 ⊆ ⊇ ⊆\u0338 ⊇\u0338"),
  (0x22AC, "⊢\u0338 ⊨\u0338 ⊩\u0338 ⊫\u0338"), (0x22E0, "≼\u0338 ≽\u0338 ⊑\u0338 ⊒\u0338"),
  (0x22EA, "⊲\u0338 ⊳\u0338 ⊴\u0338 ⊵\u0338"),
  (0x304C, "か\u3099 き き\u3099 く く\u3099 け け\u3099 こ こ\u3099 さ さ\u3099 し し\u3099 す"),
  (0x305A, "す\u3099 せ せ\u3099 そ そ\u3099 た た\u3099 ち ち\u3099 っ つ つ\u3099 て て\u3099 と"),
  (0x3069, "と\u3099"),
  (0x3070, "は\u3099 は\u309a ひ ひ\u3099 ひ\u309a ふ ふ\u3099 ふ\u309a へ へ\u3099 へ\u309a ほ"),
  (0x307C, "ほ\u3099 ほ\u309a"), (0x3094, "う\u3099"), (0x309E, "ゝ\u3099"),
  (0x30AC, "カ\u3099 キ キ\u3099 ク ク\u3099 ケ ケ\u3099 コ コ\u3099 サ サ\u3099 シ シ\u3099 ス"),
  (0x30BA, "ス\u3099 セ セ\u3099 ソ ソ\u3099 タ タ\u3099 チ チ\u3099 ッ ツ ツ\u3099 テ テ\u3099 ト"),
  (0x30C9, "ト\u3099"),
  (0x30D0, "ハ\u3099 ハ\u309a ヒ ヒ\u3099 ヒ\u309a フ フ\u3099 フ\u309a ヘ ヘ\u3099 ヘ\u309a ホ"),
  (0x30DC, "ホ\u3099 ホ\u309a"),
  (0x30F4, "ウ\u3099 ヵ ヶ ワ\u3099 ヰ\u3099 ヱ\u3099 ヲ\u3099 ・ ー ヽ ヽ\u3099"),
  (0x105C9, "𐗒\u0307"), (0x105E4, "𐗚\u0307"), (0x1109A, "𑂚 𑂛 𑂜"), (0x110AB, "𑂫"),
  (0x1112E, "𑄮 𑄯"), (0x1134B, "𑍋 𑍌"), (0x11383, "𑎃 𑎄 𑎅"), (0x1138E, "𑎎"),
  (0x11391, "𑎑"), (0x113C5, "𑏅"), (0x113C7, "𑏇 𑏈"), (0x114BB, "𑒻 𑒼 𑒽 𑒾"),
  (0x115BA, "𑖺 𑖻"), (0x11938, "𑤸"), (0x16121, "𖄡 𖄢 𖄣 𖄤 𖄥 𖄦 𖄧 𖄨"),
  (0x16D68, "𖵨 𖵩 𖵪")]

/-- The sequences that stay apart in composed form. -/
def apartSeries : Series := [
  (0x340, "\u0300 \u0301 \u0342 \u0313 \u0308\u0301"), (0x374, "ʹ"), (0x37E, ";"), (0x387, "·"),
  (0x958, "क\u093c ख\u093c ग\u093c ज\u093c ड\u093c ढ\u093c फ\u093c य\u093c"),
  (0x9DC, "ড\u09bc ঢ\u09bc"), (0x9DF, "য\u09bc"), (0xA33, "ਲ\u0a3c"), (0xA36, "ਸ\u0a3c"),
  (0xA59, "ਖ\u0a3c ਗ\u0a3c ਜ\u0a3c"), (0xA5E, "ਫ\u0a3c"), (0xB5C, "ଡ\u0b3c ଢ\u0b3c"),
  (0xF43, "ག\u0fb7"), (0xF4D, "ཌ\u0fb7"), (0xF52, "ད\u0fb7"), (0xF57, "བ\u0fb7"),
  (0xF5C, "ཛ\u0fb7"), (0xF69, "ཀ\u0fb5"),
  (0xF73, "\u0f71\u0f72 \u0f74 \u0f71\u0f74 \u0fb2\u0f80 \u0f77 \u0fb3\u0f80"),
  (0xF81, "\u0f71\u0f80"), (0xF93, "\u0f92\u0fb7"), (0xF9D, "\u0f9c\u0fb7"),
  (0xFA2, "\u0fa1\u0fb7"), (0xFA7, "\u0fa6\u0fb7"), (0xFAC, "\u0fab\u0fb7"),
  (0xFB9, "\u0f90\u0fb5"), (0x1F71, "α\u0301"), (0x1F73, "ε\u0301"), (0x1F75, "η\u0301"),
  (0x1F77, "ι\u0301"), (0x1F79, "ο\u0301"), (0x1F7B, "υ\u0301"), (0x1F7D, "ω\u0301"),
  (0x1FBB, "Α\u0301"), (0x1FBE, "ι"), (0x1FC9, "Ε\u0301"), (0x1FCB, "Η\u0301"),
  (0x1FD3, "ι\u0308\u0301"), (0x1FDB, "Ι\u0301"), (0x1FE3, "υ\u0308\u0301"), (0x1FEB, "Υ\u0301"),
  (0x1FEE, "¨\u0301 \x60"), (0x1FF9, "Ο\u0301"), (0x1FFB, "Ω\u0301"), (0x1FFD, "´"),
  (0x2000, "\u2002 \u2003"), (0x2126, "Ω ℧ ℨ ℩ K A\u030a"), (0x2329, "〈 〉"), (0x2ADC, "⫝\u0338"),
  (0xFB1D, "\u05d9\u05b4 \ufb1e \u05f2\u05b7"),
  (0xFB2A, "\u05e9\u05c1 \u05e9\u05c2 \u05e9\u05bc\u05c1 \u05e9\u05bc\u05c2 \u05d0\u05b7"),
  (0xFB2F, "\u05d0\u05b8 \u05d0\u05bc \u05d1\u05bc \u05d2\u05bc \u05d3\u05bc \u05d4\u05bc"),
  (0xFB35, "\u05d5\u05bc \u05d6\u05bc"),
  (0xFB38, "\u05d8\u05bc \u05d9\u05bc \u05da\u05bc \u05db\u05bc \u05dc\u05bc"),
  (0xFB3E, "\u05de\u05bc"), (0xFB40, "\u05e0\u05bc \u05e1\u05bc"),
  (0xFB43, "\u05e3\u05bc \u05e4\u05bc"),
  (0xFB46, "\u05e6\u05bc \u05e7\u05bc \u05e8\u05bc \u05e9\u05bc \u05ea\u05bc \u05d5\u05b9"),
  (0xFB4C, "\u05d1\u05bf \u05db\u05bf \u05e4\u05bf"), (0x1D15E, "𝅗𝅥 𝅘𝅥 𝅘𝅥𝅮 𝅘𝅥𝅯 𝅘𝅥𝅰 𝅘𝅥𝅱 𝅘𝅥𝅲"),
  (0x1D1BB, "𝆹𝅥 𝆺𝅥 𝆹𝅥𝅮 𝆺𝅥𝅮 𝆹𝅥𝅯 𝆺𝅥𝅯")]

/-- The ideographs that only repeat another one. -/
def ideographSeries : Series := [
  (0xF900, "豈 更 車 賈 滑 串 句 龜 龜 契 金 喇 奈 懶 癩 羅"),
  (0xF910, "蘿 螺 裸 邏 樂 洛 烙 珞 落 酪 駱 亂 卵 欄 爛 蘭"),
  (0xF920, "鸞 嵐 濫 藍 襤 拉 臘 蠟 廊 朗 浪 狼 郎 來 冷 勞"),
  (0xF930, "擄 櫓 爐 盧 老 蘆 虜 路 露 魯 鷺 碌 祿 綠 菉 錄"),
  (0xF940, "鹿 論 壟 弄 籠 聾 牢 磊 賂 雷 壘 屢 樓 淚 漏 累"),
  (0xF950, "縷 陋 勒 肋 凜 凌 稜 綾 菱 陵 讀 拏 樂 諾 丹 寧"),
  (0xF960, "怒 率 異 北 磻 便 復 不 泌 數 索 參 塞 省 葉 說"),
  (0xF970, "殺 辰 沈 拾 若 掠 略 亮 兩 凉 梁 糧 良 諒 量 勵"),
  (0xF980, "呂 女 廬 旅 濾 礪 閭 驪 麗 黎 力 曆 歷 轢 年 憐"),
  (0xF990, "戀 撚 漣 煉 璉 秊 練 聯 輦 蓮 連 鍊 列 劣 咽 烈"),
  (0xF9A0, "裂 說 廉 念 捻 殮 簾 獵 令 囹 寧 嶺 怜 玲 瑩 羚"),
  (0xF9B0, "聆 鈴 零 靈 領 例 禮 醴 隸 惡 了 僚 寮 尿 料 樂"),
  (0xF9C0, "燎 療 蓼 遼 龍 暈 阮 劉 杻 柳 流 溜 琉 留 硫 紐"),
  (0xF9D0, "類 六 戮 陸 倫 崙 淪 輪 律 慄 栗 率 隆 利 吏 履"),
  (0xF9E0, "易 李 梨 泥 理 痢 罹 裏 裡 里 離 匿 溺 吝 燐 璘"),
  (0xF9F0, "藺 隣 鱗 麟 林 淋 臨 立 笠 粒 狀 炙 識 什 茶 刺"),
  (0xFA00, "切 度 拓 糖 宅 洞 暴 輻 行 降 見 廓 兀 嗀 﨎 﨏"),
  (0xFA10, "塚 﨑 晴 﨓 﨔 凞 猪 益 礼 神 祥 福 靖 精 羽 﨟"),
  (0xFA20, "蘒 﨡 諸 﨣 﨤 逸 都 﨧 﨨 﨩 飯 飼 館 鶴 郞 隷"),
  (0xFA30, "侮 僧 免 勉 勤 卑 喝 嘆 器 塀 墨 層 屮 悔 慨 憎"),
  (0xFA40, "懲 敏 既 暑 梅 海 渚 漢 煮 爫 琢 碑 社 祉 祈 祐"),
  (0xFA50, "祖 祝 禍 禎 穀 突 節 練 縉 繁 署 者 臭 艹 艹 著"),
  (0xFA60, "褐 視 謁 謹 賓 贈 辶 逸 難 響 頻 恵 𤋮 舘"),
  (0xFA70, "並 况 全 侀 充 冀 勇 勺 喝 啕 喙 嗢 塚 墳 奄 奔"),
  (0xFA80, "婢 嬨 廒 廙 彩 徭 惘 慎 愈 憎 慠 懲 戴 揄 搜 摒"),
  (0xFA90, "敖 晴 朗 望 杖 歹 殺 流 滛 滋 漢 瀞 煮 瞧 爵 犯"),
  (0xFAA0, "猪 瑱 甆 画 瘝 瘟 益 盛 直 睊 着 磌 窱 節 类 絛"),
  (0xFAB0, "練 缾 者 荒 華 蝹 襁 覆 視 調 諸 請 謁 諾 諭 謹"),
  (0xFAC0, "變 贈 輸 遲 醙 鉶 陼 難 靖 韛 響 頋 頻 鬒 龜 𢡊"),
  (0xFAD0, "𢡄 𣏕 㮝 䀘 䀹 𥉉 𥳐 𧻓 齃 龎"),
  (0x2F800, "丽 丸 乁 𠄢 你 侮 侻 倂 偺 備 僧 像 㒞 𠘺 免 兔"),
  (0x2F810, "兤 具 𠔜 㒹 內 再 𠕋 冗 冤 仌 冬 况 𩇟 凵 刃 㓟"),
  (0x2F820, "刻 剆 割 剷 㔕 勇 勉 勤 勺 包 匆 北 卉 卑 博 即"),
  (0x2F830, "卽 卿 卿 卿 𠨬 灰 及 叟 𠭣 叫 叱 吆 咞 吸 呈 周"),
  (0x2F840, "咢 哶 唐 啓 啣 善 善 喙 喫 喳 嗂 圖 嘆 圗 噑 噴"),
  (0x2F850, "切 壮 城 埴 堍 型 堲 報 墬 𡓤 売 壷 夆 多 夢 奢"),
  (0x2F860, "𡚨 𡛪 姬 娛 娧 姘 婦 㛮 㛼 嬈 嬾 嬾 𡧈 寃 寘 寧"),
  (0x2F870, "寳 𡬘 寿 将 当 尢 㞁 屠 屮 峀 岍 𡷤 嵃 𡷦 嵮 嵫"),
  (0x2F880, "嵼 巡 巢 㠯 巽 帨 帽 幩 㡢 𢆃 㡼 庰 庳 庶 廊 𪎒"),
  (0x2F890, "廾 𢌱 𢌱 舁 弢 弢 㣇 𣊸 𦇚 形 彫 㣣 徚 忍 志 忹"),
  (0x2F8A0, "悁 㤺 㤜 悔 𢛔 惇 慈 慌 慎 慌 慺 憎 憲 憤 憯 懞"),
  (0x2F8B0, "懲 懶 成 戛 扝 抱 拔 捐 𢬌 挽 拼 捨 掃 揤 𢯱 搢"),
  (0x2F8C0, "揅 掩 㨮 摩 摾 撝 摷 㩬 敏 敬 𣀊 旣 書 晉 㬙 暑"),
  (0x2F8D0, "㬈 㫤 冒 冕 最 暜 肭 䏙 朗 望 朡 杞 杓 𣏃 㭉 柺"),
  (0x2F8E0, "枅 桒 梅 𣑭 梎 栟 椔 㮝 楂 榣 槪 檨 𣚣 櫛 㰘 次"),
  (0x2F8F0, "𣢧 歔 㱎 歲 殟 殺 殻 𣪍 𡴋 𣫺 汎 𣲼 沿 泍 汧 洖"),
  (0x2F900, "派 海 流 浩 浸 涅 𣴞 洴 港 湮 㴳 滋 滇 𣻑 淹 潮"),
  (0x2F910, "𣽞 𣾎 濆 瀹 瀞 瀛 㶖 灊 災 灷 炭 𠔥 煅 𤉣 熜 𤎫"),
  (0x2F920, "爨 爵 牐 𤘈 犀 犕 𤜵 𤠔 獺 王 㺬 玥 㺸 㺸 瑇 瑜"),
  (0x2F930, "瑱 璅 瓊 㼛 甤 𤰶 甾 𤲒 異 𢆟 瘐 𤾡 𤾸 𥁄 㿼 䀈"),
  (0x2F940, "直 𥃳 𥃲 𥄙 𥄳 眞 真 真 睊 䀹 瞋 䁆 䂖 𥐝 硎 碌"),
  (0x2F950, "磌 䃣 𥘦 祖 𥚚 𥛅 福 秫 䄯 穀 穊 穏 𥥼 𥪧 𥪧 竮"),
  (0x2F960, "䈂 𥮫 篆 築 䈧 𥲀 糒 䊠 糨 糣 紀 𥾆 絣 䌁 緇 縂"),
  (0x2F970, "繅 䌴 𦈨 𦉇 䍙 𦋙 罺 𦌾 羕 翺 者 𦓚 𦔣 聠 𦖨 聰"),
  (0x2F980, "𣍟 䏕 育 脃 䐋 脾 媵 𦞧 𦞵 𣎓 𣎜 舁 舄 辞 䑫 芑"),
  (0x2F990, "芋 芝 劳 花 芳 芽 苦 𦬼 若 茝 荣 莭 茣 莽 菧 著"),
  (0x2F9A0, "荓 菊 菌 菜 𦰶 𦵫 𦳕 䔫 蓱 蓳 蔖 𧏊 蕤 𦼬 䕝 䕡"),
  (0x2F9B0, "𦾱 𧃒 䕫 虐 虜 虧 虩 蚩 蚈 蜎 蛢 蝹 蜨 蝫 螆 䗗"),
  (0x2F9C0, "蟡 蠁 䗹 衠 衣 𧙧 裗 裞 䘵 裺 㒻 𧢮 𧥦 䚾 䛇 誠"),
  (0x2F9D0, "諭 變 豕 𧲨 貫 賁 贛 起 𧼯 𠠄 跋 趼 跰 𠣞 軔 輸"),
  (0x2F9E0, "𨗒 𨗭 邔 郱 鄑 𨜮 鄛 鈸 鋗 鋘 鉼 鏹 鐕 𨯺 開 䦕"),
  (0x2F9F0, "閷 𨵷 䧦 雃 嶲 霣 𩅅 𩈚 䩮 䩶 韠 𩐊 䪲 𩒖 頋 頋"),
  (0x2FA00, "頩 𩖶 飢 䬳 餩 馧 駂 駾 䯎 𩬰 鬒 鱀 鳽 䳎 䳭 鵧"),
  (0x2FA10, "𪃎 䳸 𪄅 𪈎 𪊑 麻 䵖 黹 黾 鼅 鼏 鼖 鼻 𪘀")]

/-- The characters that a character is taken apart into, itself if it is not. -/
def canonicalParts (c : Char) : List Char :=
  let n := c.toNat
  let found (series : Series) := (series.text? n).filter (· != [c])
  (found wholeSeries <|> found apartSeries <|> found ideographSeries).getD [c]

/-- The characters of the composed form, with the sequences that they are written for. -/
def wholes : List (Char × List Char) := wholeSeries.entries.filter fun (c, text) => text != [c]

end TopicQuery.Text
