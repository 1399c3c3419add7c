/-! # Sets of characters given as ranges

A property of characters is stored as the list of its code point ranges, in increasing order and
both ends included.
-/

namespace Endpoints.Text

/-- Whether the code point of `c` lies in one of the ranges. -/
def inRanges (ranges : List (Nat × Nat)) (c : Char) : Bool :=
  ranges.any fun (first, last) => first ≤ c.toNat && c.toNat ≤ last

end Endpoints.Text
