import Endpoints.Text.Ranges

/-! # White space

The Unicode property `White_Space`. It holds of the no-break space and of the line and paragraph
separators, and not of U+200B and U+FEFF.
-/

namespace Endpoints.Text

/-- The ranges of `White_Space`. -/
def whiteRanges : List (Nat × Nat) := [
    (0x9, 0xd), (0x20, 0x20), (0x85, 0x85), (0xa0, 0xa0), (0x1680, 0x1680),
    (0x2000, 0x200a), (0x2028, 0x2029), (0x202f, 0x202f), (0x205f, 0x205f), (0x3000, 0x3000)]

def isWhite (c : Char) : Bool :=
  inRanges whiteRanges c

end Endpoints.Text
