/-!
# Decimal numbers as text

A decimal is a natural coefficient scaled by a power of ten. This module writes
naturals in base ten, reads the decimal grammar
`sign? (digits (. digits?)? | . digits) ((e | E) sign? digits)?`, and rounds a
decimal to the nearest binary float.

## Main definitions

* `Decimal`, `Decimal.digits`, `Decimal.ofDigits`.
* `Decimal.read?` — the grammar above.
* `Decimal.toFloat`, `Decimal.toFloat32` — the nearest float, ties to even.
-/

namespace Restack

/-- The number `coefficient * 10 ^ exponent`. -/
structure Decimal where
  /-- The digits, read as one natural number. -/
  coefficient : Nat
  /-- The power of ten that scales them. -/
  exponent : Int
  deriving DecidableEq

namespace Decimal

/-- The base-ten digits of a natural number, most significant first. -/
def digits (n : Nat) : List Char := Nat.toDigits 10 n

/-- The number that a list of digits denotes, most significant first. -/
def ofDigits (ds : List Char) : Nat :=
  ds.foldl (fun n d => 10 * n + (d.toNat - '0'.toNat)) 0

/-- The base-ten text of an integer. -/
def integer : Int → List Char
  | .ofNat n => digits n
  | .negSucc n => '-' :: digits (n + 1)

/-- Splits off a leading sign; the flag tells whether it was a minus. -/
def splitSign : List Char → Bool × List Char
  | '-' :: cs => (true, cs)
  | '+' :: cs => (false, cs)
  | cs => (false, cs)

/-- Splits off the digits after a decimal point, if a point comes first. -/
def splitFraction : List Char → List Char × List Char
  | '.' :: cs => (cs.takeWhile Char.isDigit, cs.dropWhile Char.isDigit)
  | cs => ([], cs)

/-- Reads an exponent that fills the rest of the text; no text means zero. -/
def readExponent? : List Char → Option Int
  | [] => some 0
  | c :: cs =>
    if c = 'e' ∨ c = 'E' then
      let (negative, ds) := splitSign cs
      if ds.isEmpty || !ds.all Char.isDigit then none
      else some (if negative then -(ofDigits ds : Int) else ofDigits ds)
    else none

/-- Reads a decimal that fills the whole text; the flag tells whether it is negated. -/
def read? (cs : List Char) : Option (Bool × Decimal) :=
  let (negative, cs) := splitSign cs
  let whole := cs.takeWhile Char.isDigit
  let (fraction, rest) := splitFraction (cs.dropWhile Char.isDigit)
  if whole.isEmpty && fraction.isEmpty then none
  else
    (readExponent? rest).map fun exponent =>
      (negative, ⟨ofDigits (whole ++ fraction), exponent - fraction.length⟩)

/-- The number of digits before the point in scientific form: the decimal is at least
`10 ^ (magnitude - 1)` and below `10 ^ magnitude` unless it is zero. -/
def magnitude (d : Decimal) : Int := (digits d.coefficient).length + d.exponent

/-- The power of ten beyond which every decimal overflows, and below whose inverse
every decimal underflows, in both float formats. -/
def magnitudeLimit : Int := 400

/-- The double nearest to a decimal. -/
def toFloat (d : Decimal) : Float :=
  if d.coefficient = 0 ∨ d.magnitude < -magnitudeLimit then 0
  else if magnitudeLimit < d.magnitude then 1 / 0
  else .ofScientific d.coefficient (d.exponent < 0) d.exponent.natAbs

/-- The single-precision float nearest to a decimal. -/
def toFloat32 (d : Decimal) : Float32 :=
  if d.coefficient = 0 ∨ d.magnitude < -magnitudeLimit then 0
  else if magnitudeLimit < d.magnitude then 1 / 0
  else .ofScientific d.coefficient (d.exponent < 0) d.exponent.natAbs

end Decimal
end Restack
