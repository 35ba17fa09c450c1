import Restack.Toml.Value

/-!
# Unquoted scalars

Truth values, integers, floats, dates and times, as TOML writes them without quotes.
-/

namespace Restack.Toml

/-- Whether digits of a number are well formed: underscores stand between digits only. -/
def grouped (isDigit : Char → Bool) : List Char → Bool
  | [] => false
  | c :: cs =>
    isDigit c &&
      match cs with
      | [] => true
      | '_' :: cs => grouped isDigit cs
      | cs => grouped isDigit cs

/-- The value of a digit in bases up to sixteen. -/
def digitValue (c : Char) : Nat :=
  if c.isDigit then c.toNat - '0'.toNat
  else if 'a' ≤ c ∧ c ≤ 'f' then c.toNat - 'a'.toNat + 10
  else if 'A' ≤ c ∧ c ≤ 'F' then c.toNat - 'A'.toNat + 10
  else 0

/-- Whether a character is a hexadecimal digit. -/
def isHexDigit (c : Char) : Bool :=
  c.isDigit || ('a' ≤ c && c ≤ 'f') || ('A' ≤ c && c ≤ 'F')

/-- The number that digits denote in a base, underscores left out. -/
def digitsValue (base : Nat) (cs : List Char) : Nat :=
  (cs.filter (· != '_')).foldl (fun n c => base * n + digitValue c) 0

/-- Splits off a sign; the flag tells whether it was a minus. -/
def dropSign : List Char → Bool × List Char
  | '+' :: cs => (false, cs)
  | '-' :: cs => (true, cs)
  | cs => (false, cs)

/-- Whether a decimal number without a sign is well formed: it has no leading zeros. -/
def isWhole (cs : List Char) : Bool :=
  grouped Char.isDigit cs && (cs.head? != some '0' || cs.length == 1)

/-- An integer in the 64-bit range. -/
def inRange (n : Int) : Option Value :=
  if -0x8000000000000000 ≤ n ∧ n < 0x8000000000000000 then some (.integer n) else none

/-- Reads an integer. -/
def integer? (cs : List Char) : Option Value :=
  match cs with
  | '0' :: 'x' :: ds => if grouped isHexDigit ds then inRange (digitsValue 16 ds) else none
  | '0' :: 'o' :: ds =>
    if grouped (fun c => '0' ≤ c && c ≤ '7') ds then inRange (digitsValue 8 ds) else none
  | '0' :: 'b' :: ds =>
    if grouped (fun c => c == '0' || c == '1') ds then inRange (digitsValue 2 ds) else none
  | cs =>
    let (negative, ds) := dropSign cs
    if isWhole ds then
      inRange (if negative then -(digitsValue 10 ds : Int) else digitsValue 10 ds)
    else none

/-- Whether an exponent, or nothing, makes up the characters. -/
def isExponent : List Char → Bool
  | [] => true
  | c :: cs => (c == 'e' || c == 'E') && grouped Char.isDigit (dropSign cs).2

/-- Whether the characters are a float. -/
def isFloat (cs : List Char) : Bool :=
  let cs := (dropSign cs).2
  let isPart (c : Char) : Bool := c.isDigit || c == '_'
  let whole := cs.takeWhile isPart
  let rest := cs.dropWhile isPart
  cs == ['i', 'n', 'f'] || cs == ['n', 'a', 'n'] ||
    (isWhole whole &&
      match rest with
      | '.' :: rest =>
        grouped Char.isDigit (rest.takeWhile isPart) && isExponent (rest.dropWhile isPart)
      | [] => false
      | rest => isExponent rest)

/-- Reads a number of the given width, in bounds, that is followed by nothing else. -/
def field? (width low high : Nat) (cs : List Char) : Bool :=
  cs.length == width && cs.all Char.isDigit &&
    (low ≤ digitsValue 10 cs && digitsValue 10 cs ≤ high)

/-- The number of days in a month. -/
def daysIn (year month : Nat) : Nat :=
  if month = 2 then
    if year % 4 = 0 ∧ (year % 100 ≠ 0 ∨ year % 400 = 0) then 29 else 28
  else if month = 4 ∨ month = 6 ∨ month = 9 ∨ month = 11 then 30
  else 31

/-- Whether the characters are a date. -/
def isDate (cs : List Char) : Bool :=
  let year := cs.take 4
  let month := (cs.drop 5).take 2
  cs[4]? == some '-' && cs[7]? == some '-' && field? 4 0 9999 year && field? 2 1 12 month &&
    field? 2 1 (daysIn (digitsValue 10 year) (digitsValue 10 month)) (cs.drop 8)

/-- Whether the characters are an hour and a minute. -/
def isClock (cs : List Char) : Bool :=
  cs[2]? == some ':' && field? 2 0 23 (cs.take 2) && field? 2 0 59 (cs.drop 3)

/-- Whether the characters are a time of day. -/
def isTime (cs : List Char) : Bool :=
  isClock (cs.take 5) && cs[5]? == some ':' && field? 2 0 60 ((cs.drop 6).take 2) &&
    match cs.drop 8 with
    | [] => true
    | '.' :: fraction => !fraction.isEmpty && fraction.all Char.isDigit
    | _ => false

/-- Whether the characters are a time of day, with or without an offset from UTC. -/
def isOffsetTime (cs : List Char) : Bool :=
  let isPart (c : Char) : Bool := c.isDigit || c == ':' || c == '.'
  isTime (cs.takeWhile isPart) &&
    match cs.dropWhile isPart with
    | [] => true
    | [c] => c == 'Z' || c == 'z'
    | c :: clock => (c == '+' || c == '-') && isClock clock

/-- Whether the characters are a date, a time of day, or both. -/
def isMoment (cs : List Char) : Bool :=
  isDate cs || isTime cs ||
    (isDate (cs.take 10) && (cs[10]?.any fun c => c == 'T' || c == 't' || c == ' ') &&
      isOffsetTime (cs.drop 11))

/-- Reads a scalar that makes up all the characters. -/
def scalar? (cs : List Char) : Option Value :=
  if cs = ['t', 'r', 'u', 'e'] then some (.bool true)
  else if cs = ['f', 'a', 'l', 's', 'e'] then some (.bool false)
  else
    match integer? cs with
    | some v => some v
    | none =>
      if isFloat cs then some (.float (.ofList cs))
      else if isMoment cs then some (.moment (.ofList cs))
      else none

end Restack.Toml
