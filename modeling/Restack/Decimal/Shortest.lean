import Restack.Decimal.Basic

/-!
# The fewest digits that read back

A binary float stands for every real number that rounds to it. Among the decimals
in that interval this module picks one with the fewest digits, and among those the
one nearest to the float; of two equally near ones the greater.

The interval of `mantissa * 2 ^ exponent` reaches half way to each neighbour. Its ends
belong to it when the mantissa is even, because ties round to even, and the lower
neighbour of a power of two is only half as far away.

## Main definitions

* `Magnitude` — what the bits of a float say about its absolute value.
* `Decimal.shortest` — the decimal chosen for a positive float.
-/

namespace Restack

/-- The absolute value of a binary float. -/
inductive Magnitude where
  /-- Not a number. -/
  | nan
  /-- Beyond every finite value. -/
  | infinite
  /-- Zero. -/
  | zero
  /-- The positive number `mantissa * 2 ^ exponent`; `narrow` marks a power of two whose lower
  neighbour is half as far away as the upper one. -/
  | positive (mantissa : Nat) (exponent : Int) (narrow : Bool)
  deriving DecidableEq

/-- Reads the bits of a float whose fraction and exponent fields have the given widths. -/
def Magnitude.ofBits (fractionBits exponentBits bits : Nat) : Magnitude :=
  let fraction := bits % Nat.pow 2 fractionBits
  let field := bits / Nat.pow 2 fractionBits % Nat.pow 2 exponentBits
  let bias : Int := Nat.pow 2 (exponentBits - 1) - 1
  if field = Nat.pow 2 exponentBits - 1 then
    if fraction = 0 then .infinite else .nan
  else if field = 0 then
    if fraction = 0 then .zero else .positive fraction (1 - bias - fractionBits) false
  else
    .positive (Nat.pow 2 fractionBits + fraction) (field - bias - fractionBits)
      (fraction == 0 && field != 1)

namespace Decimal

/-- The weights that bring `d * 10 ^ e` and `x * 2 ^ p` to a common unit: the two are
compared as `d * tens` and `x * twos`. -/
structure Weights where
  /-- The weight of a decimal coefficient. -/
  tens : Nat
  /-- The weight of a binary coefficient. -/
  twos : Nat

/-- The weights for the powers `10 ^ e` and `2 ^ p`. -/
def weights (e p : Int) : Weights :=
  ⟨Nat.pow 10 e.toNat * Nat.pow 2 (-p).toNat, Nat.pow 2 p.toNat * Nat.pow 10 (-e).toNat⟩

/-- The interval of a positive float, as multiples of `2 ^ scale`. -/
structure Interval where
  /-- The lower end. -/
  low : Nat
  /-- The float itself. -/
  centre : Nat
  /-- The upper end. -/
  high : Nat
  /-- Whether the ends belong to the interval. -/
  closed : Bool
  /-- The power of two that all three are multiples of. -/
  scale : Int

/-- The reals that round to `mantissa * 2 ^ exponent`. -/
def interval (mantissa : Nat) (exponent : Int) (narrow : Bool) : Interval where
  low := 4 * mantissa - (if narrow then 1 else 2)
  centre := 4 * mantissa
  high := 4 * mantissa + 2
  closed := mantissa % 2 == 0
  scale := exponent - 2

namespace Interval

/-- Whether the decimal `d`, in the unit of `w`, lies in the interval. -/
def contains (i : Interval) (w : Weights) (d : Nat) : Bool :=
  let x := d * w.tens
  if i.closed then i.low * w.twos ≤ x && x ≤ i.high * w.twos
  else i.low * w.twos < x && x < i.high * w.twos

/-- The greatest decimal of the grid that is not above the float. -/
def floor (i : Interval) (w : Weights) : Nat := i.centre * w.twos / w.tens

/-- The nearer of the two decimals of the grid around the float; a tie goes up. -/
def nearest (i : Interval) (w : Weights) : Nat :=
  let d := i.floor w
  if 2 * (i.centre * w.twos) < (2 * d + 1) * w.tens then d else d + 1

/-- The decimal of a grid that stands for the float, if there is one. -/
def hit? (i : Interval) (w : Weights) : Option Nat :=
  let d := i.floor w
  match i.contains w d, i.contains w (d + 1) with
  | true, true => some (i.nearest w)
  | true, false => some d
  | false, true => some (d + 1)
  | false, false => none

/-- Searches ever finer grids, from `10 ^ e` down, for a decimal in the interval. -/
def search (i : Interval) : (more : Nat) → (e : Int) → Decimal
  | 0, e => ⟨i.nearest (weights e i.scale), e⟩
  | more + 1, e =>
    match i.hit? (weights e i.scale) with
    | some d => ⟨d, e⟩
    | none => i.search more (e - 1)

/-- The least power of ten above the float, found from an estimate by its bit length. -/
def decade (i : Interval) : Int :=
  let estimate := Int.fdiv (((Nat.log2 i.centre : Nat) + i.scale) * 30103) 100000
  let above (e : Int) : Bool :=
    let w := weights e i.scale
    i.centre * w.twos < w.tens
  if above estimate then estimate
  else if above (estimate + 1) then estimate + 1
  else estimate + 2

end Interval

/-- The decimal with the fewest digits that rounds to `mantissa * 2 ^ exponent`, at most
seventeen of them. -/
def shortest (mantissa : Nat) (exponent : Int) (narrow : Bool) : Decimal :=
  let i := interval mantissa exponent narrow
  i.search 16 (i.decade - 1)

end Decimal
end Restack
