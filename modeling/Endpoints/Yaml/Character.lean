/-! # Characters of YAML

The classes of characters that the reader and the writer of YAML text share.
-/

namespace Endpoints.Yaml

/-- Whether a character ends a line. -/
def isBreak (c : Char) : Bool :=
  c == '\n' || c == '\r' || c == '\x85' || c == '\u2028' || c == '\u2029'

def isBlank (c : Char) : Bool :=
  c == ' ' || c == '\t'

/-- Whether a character sets words apart: white space or the end of a line or text. -/
def isGap (c : Char) : Bool :=
  isBlank c || c == '\x00' || isBreak c

/-- Whether a gap or the end of the text comes next. -/
def endsWord (cs : List Char) : Bool :=
  cs.head?.all isGap

/-- Whether a text may contain a character. -/
def isAllowed (c : Char) : Bool :=
  let n := c.toNat
  n == 0x09 || n == 0x0A || n == 0x0D || (0x20 ≤ n && n ≤ 0x7E) || n == 0x85 ||
    (0xA0 ≤ n && n != 0xFFFE && n != 0xFFFF)

/-- Whether a character is written as it is. -/
def isPrintable (c : Char) : Bool :=
  let n := c.toNat
  n == 0x0A || (0x20 ≤ n && n ≤ 0x7E) || (0xA0 ≤ n && n != 0xFEFF && n != 0xFFFE && n != 0xFFFF)

end Endpoints.Yaml
