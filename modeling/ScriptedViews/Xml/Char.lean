set_option autoImplicit false

/-! # Characters of XML

The character classes of XML 1.0, fifth edition: characters of a document, white space, and the
characters of names. -/

namespace ScriptedViews.Xml

/-- Whether `c` lies in one of the inclusive ranges of code points. -/
def inRanges (ranges : List (Nat × Nat)) (c : Char) : Bool :=
  ranges.any fun r => r.1 ≤ c.toNat && c.toNat ≤ r.2

/-- White space between tokens. -/
def isSpace (c : Char) : Bool :=
  c == ' ' || c == '\t' || c == '\n' || c == '\r'

/-- A character that a document may hold: no control but tab and the line ends, and neither of the
    two noncharacters at the end of the first plane. -/
def isXmlChar (c : Char) : Bool :=
  if c.toNat < 0x20 then isSpace c else c.toNat != 0xfffe && c.toNat != 0xffff

/-- The ranges of characters that may start a name, but for the colon. -/
def nameStartRanges : List (Nat × Nat) :=
  [(0x41, 0x5a), (0x5f, 0x5f), (0x61, 0x7a), (0xc0, 0xd6), (0xd8, 0xf6), (0xf8, 0x2ff),
   (0x370, 0x37d), (0x37f, 0x1fff), (0x200c, 0x200d), (0x2070, 0x218f), (0x2c00, 0x2fef),
   (0x3001, 0xd7ff), (0xf900, 0xfdcf), (0xfdf0, 0xfffd), (0x10000, 0xeffff)]

/-- The ranges of characters that may follow in a name, besides those that may start one. -/
def nameTailRanges : List (Nat × Nat) :=
  [(0x2d, 0x2e), (0x30, 0x39), (0xb7, 0xb7), (0x300, 0x36f), (0x203f, 0x2040)]

/-- A character that may start a part of a name. -/
def isNameStart (c : Char) : Bool :=
  inRanges nameStartRanges c

/-- A character of a part of a name. -/
def isNameChar (c : Char) : Bool :=
  isNameStart c || inRanges nameTailRanges c

end ScriptedViews.Xml
