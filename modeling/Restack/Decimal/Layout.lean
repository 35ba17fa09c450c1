import Restack.Decimal.Shortest

/-!
# How floats are written

A float is written with the fewest digits that read back. A `Layout` says where
positional form ends and whether a whole number keeps its point.

## Main definitions

* `Decimal.Layout`, `Decimal.Layout.write`.
* `singleText`, `doubleText` — the two layouts in use.
-/

namespace Restack

namespace Decimal

/-- The decisions of one way to write floats. -/
structure Layout where
  /-- Positional form is used for numbers below `10 ^ upTo` only; `none` sets no bound. -/
  upTo : Option Int
  /-- Positional form is used for numbers from `10 ^ downTo` on only; `none` sets no bound. -/
  downTo : Option Int
  /-- Whether a whole number is written with a point and a zero. -/
  keepPoint : Bool

/-- The digits of a decimal without the zeros that end them. -/
def significant (d : Decimal) : List Char :=
  ((digits d.coefficient).reverse.dropWhile (· == '0')).reverse

namespace Layout

/-- What follows the digits of a whole number. -/
def wholeSuffix (layout : Layout) : List Char :=
  if layout.keepPoint then ['.', '0'] else []

/-- Positional form of the digits `ds` whose point stands after `point` of them. -/
def positional (layout : Layout) (ds : List Char) (point : Int) : List Char :=
  if point ≤ 0 then ['0', '.'] ++ List.replicate (-point).toNat '0' ++ ds
  else if ds.length ≤ point then
    ds ++ List.replicate (point.toNat - ds.length) '0' ++ layout.wholeSuffix
  else ds.take point.toNat ++ '.' :: ds.drop point.toNat

/-- Scientific form of the digits `ds` whose point stands after `point` of them. -/
def scientific (ds : List Char) (point : Int) : List Char :=
  (match ds with
    | [] => []
    | [d] => [d]
    | d :: more => d :: '.' :: more) ++ 'e' :: integer (point - 1)

/-- Whether a number of the given decimal magnitude is written positionally. -/
def isPositional (layout : Layout) (point : Int) : Bool :=
  (layout.upTo.all fun bound => point ≤ bound) && (layout.downTo.all fun bound => bound < point)

/-- The text of a nonnegative float. -/
def writeMagnitude (layout : Layout) : Magnitude → List Char
  | .nan => ['N', 'a', 'N']
  | .infinite => ['i', 'n', 'f']
  | .zero => '0' :: layout.wholeSuffix
  | .positive mantissa exponent narrow =>
    let d := shortest mantissa exponent narrow
    let ds := d.significant
    let point := d.magnitude
    if layout.isPositional point then layout.positional ds point else scientific ds point

/-- The text of a float: the sign of anything but a NaN, and its magnitude. -/
def write (layout : Layout) (negative : Bool) (m : Magnitude) : List Char :=
  if negative && m != .nan then '-' :: layout.writeMagnitude m else layout.writeMagnitude m

end Layout
end Decimal

/-- Single-precision floats are written positionally, without a point on whole numbers, and
marked by a final `f`. -/
def singleText (x : Float32) : List Char :=
  let layout : Decimal.Layout := ⟨none, none, false⟩
  let bits := x.toBits.toNat
  layout.write (bits >>> 31 == 1) (.ofBits 23 8 bits) ++ ['f']

/-- Doubles keep the point of whole numbers, and turn to scientific form below `10 ^ (-4)` and
from `10 ^ 16` on. -/
def doubleText (x : Float) : List Char :=
  let layout : Decimal.Layout := ⟨some 16, some (-4), true⟩
  let bits := x.toBits.toNat
  layout.write (bits >>> 63 == 1) (.ofBits 52 11 bits)

end Restack
