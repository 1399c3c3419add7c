/-! # Integers of limited width

Which integers fit a word of so many bits, with and without a sign, and how a word counts up.
-/

namespace Endpoints.Word

/-- The number of words of so many bits. -/
def count (bits : Nat) : Nat := Nat.pow 2 bits

/-- Whether a number fits a word without a sign. -/
def fitsUnsigned (bits : Nat) (n : Int) : Bool :=
  0 ≤ n && n.toNat < count bits

/-- Whether a number fits a word with a sign, whose first bit is the sign. -/
def fitsSigned (bits : Nat) (n : Int) : Bool :=
  if 0 ≤ n then n.toNat < count (bits - 1) else (-n).toNat ≤ count (bits - 1)

/-- Whether a number fits a word with or without a sign. -/
def fits (bits : Nat) (n : Int) : Bool :=
  fitsSigned bits n || fitsUnsigned bits n

/-- The number after `n` among those that fit a word with a sign. The least one comes after the
greatest one. -/
def succSigned (bits : Nat) (n : Int) : Int :=
  if n + 1 = count (bits - 1) then -count (bits - 1) else n + 1

end Endpoints.Word
