/-! # Sets of characters given by code-point ranges

The Unicode properties that the library needs are data: each is a list of
inclusive ranges of code points, and membership is one linear look-up.
-/

namespace ChatArgs.Text

/-- A set of characters as inclusive ranges of code points, in increasing order. -/
abbrev CodeRanges := List (Nat × Nat)

def CodeRanges.contains (ranges : CodeRanges) (c : Char) : Bool :=
  ranges.any fun range => range.1 ≤ c.toNat && c.toNat ≤ range.2

end ChatArgs.Text
