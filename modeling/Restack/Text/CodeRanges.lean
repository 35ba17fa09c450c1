/-!
# Tables of code points

A character class of a standard is a list of closed ranges of code points.
-/

namespace Restack.Text

/-- A set of code points, given by closed ranges. -/
abbrev CodeRanges := Array (Nat × Nat)

/-- Whether the code point of `c` lies in one of the ranges. -/
def CodeRanges.contains (table : CodeRanges) (c : Char) : Bool :=
  table.any fun range => range.1 ≤ c.toNat && c.toNat ≤ range.2

end Restack.Text
