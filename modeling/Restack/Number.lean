import Restack.TypeTag

/-!
# Numbers

The three numeric kinds, and arithmetic on them. Two operands are first brought to
their common kind, `int < float < double`. Integers are 64-bit words whose
arithmetic never wraps: a result outside the range is a fault. Floats follow IEEE
754.

## Main definitions

* `Number`, `Number.typeTag`.
* `Number.pair` — two numbers in their common kind.
* `Number.add`, `sub`, `mul`, `div`, `compare`.
-/

namespace Restack

/-- A number of one of the three numeric kinds. -/
inductive Number where
  /-- A 64-bit signed integer. -/
  | int (value : Int64)
  /-- A single-precision float. -/
  | float (value : Float32)
  /-- A double-precision float. -/
  | double (value : Float)

namespace Number

/-- Why an integer operation has no result. -/
inductive Fault where
  /-- The divisor is zero. -/
  | divisionByZero
  /-- The result is outside the 64-bit range. -/
  | overflow
  deriving DecidableEq

/-- The type of a number. -/
def typeTag : Number → TypeTag
  | int _ => .int
  | float _ => .float
  | double _ => .double

/-- Two numbers of one kind. -/
inductive Pair where
  /-- Two integers. -/
  | ints (a b : Int64)
  /-- Two single-precision floats. -/
  | floats (a b : Float32)
  /-- Two doubles. -/
  | doubles (a b : Float)

/-- The nearest double to an integer. -/
def doubleOfInt (v : Int64) : Float := .ofInt v.toInt

/-- The nearest single-precision float to an integer. -/
def singleOfInt (v : Int64) : Float32 := .ofInt v.toInt

/-- Two numbers brought to the wider of their kinds. -/
def pair : Number → Number → Pair
  | int a, int b => .ints a b
  | int a, float b => .floats (singleOfInt a) b
  | int a, double b => .doubles (doubleOfInt a) b
  | float a, int b => .floats a (singleOfInt b)
  | float a, float b => .floats a b
  | float a, double b => .doubles a.toFloat b
  | double a, int b => .doubles a (doubleOfInt b)
  | double a, float b => .doubles a b.toFloat
  | double a, double b => .doubles a b

/-- The least 64-bit integer. -/
def minInt : Int := -0x8000000000000000

/-- The greatest 64-bit integer. -/
def maxInt : Int := 0x7fffffffffffffff

/-- An integer as a 64-bit word, if it is in range. -/
def ofInt? (v : Int) : Option Int64 :=
  if minInt ≤ v ∧ v ≤ maxInt then some (.ofInt v) else none

/-- An exact integer result, which must be in range. -/
def checked (v : Int) : Except Fault Number :=
  match ofInt? v with
  | some w => .ok (.int w)
  | none => .error .overflow

/-- The sum. -/
def add (x y : Number) : Except Fault Number :=
  match x.pair y with
  | .ints a b => checked (a.toInt + b.toInt)
  | .floats a b => .ok (.float (a + b))
  | .doubles a b => .ok (.double (a + b))

/-- The difference. -/
def sub (x y : Number) : Except Fault Number :=
  match x.pair y with
  | .ints a b => checked (a.toInt - b.toInt)
  | .floats a b => .ok (.float (a - b))
  | .doubles a b => .ok (.double (a - b))

/-- The product. -/
def mul (x y : Number) : Except Fault Number :=
  match x.pair y with
  | .ints a b => checked (a.toInt * b.toInt)
  | .floats a b => .ok (.float (a * b))
  | .doubles a b => .ok (.double (a * b))

/-- The quotient; integer division goes toward zero and refuses a zero divisor. -/
def div (x y : Number) : Except Fault Number :=
  match x.pair y with
  | .ints a b => if b = 0 then .error .divisionByZero else checked (a.toInt.tdiv b.toInt)
  | .floats a b => .ok (.float (a / b))
  | .doubles a b => .ok (.double (a / b))

/-- The order of two numbers; a NaN is in no order. -/
def compare (x y : Number) : Option Ordering :=
  match x.pair y with
  | .ints a b => some (Ord.compare a.toInt b.toInt)
  | .floats a b =>
    if a < b then some .lt else if a == b then some .eq else if b < a then some .gt else none
  | .doubles a b =>
    if a < b then some .lt else if a == b then some .eq else if b < a then some .gt else none

end Number
end Restack
